import Sower.Server.Operations

/-!
# Recorded results in every interleaving

A garden's result that is recorded between a finalizer's selection and its
write is lost; in every interleaving without such a crossing it stays.
-/

namespace Sower.Server

open Sower.Calendar Sower.Policy Sower.Wire Process Keyed Interleaving

section Runs

variable {platform : Platform}

/-- In every interleaving in which no result is recorded between a finalizer's
selection of a deployment and its write, recorded results stay. -/
theorem keepsResults_of_noCrossing {db : Db} {c : Pool Db Event}
    (hreach : Reachable (Served platform) (Pool.start db) c)
    (hcross : NoCrossing (history c.world) = true) : KeepsResults c.world :=
  ((serverContract_of_reachable hreach).1 hcross).1

/-- A store with one deployment that waits for its garden. -/
def oneDispatched : Db :=
  ({ clock := fun n => n } : Db).insertDeployment
    { gardenId := 1, seeds := [], subscriptions := [], state := .dispatched
      lastDispatchedAt := none, contentHash := "" }

/-- A finalizer for deployments older than a second, ten seconds in. -/
def finalizer : Operation := .finalizeStaleDeployments 10000000 1 10

/-- The garden reports its success. -/
def success : Operation := .recordDeployment 1 .success 5000000

/-- A result that is recorded before the finalizer selects stays. -/
theorem keepsResults_of_recorded_first :
    KeepsResults (scheduled .plain oneDispatched [finalizer, success] [1, 1, 0]).world :=
  keepsResults_of_noCrossing (scheduled_reachable _ _ _) (by decide)

/-- The finalizer selects, the result is recorded, the finalizer writes. -/
theorem keepsResults_fails_between_selection_and_write :
    ¬ ∀ (platform : Platform) (db : Db) (c : Pool Db Event),
      Reachable (Served platform) (Pool.start db) c → KeepsResults c.world := by
  intro h
  have hkeeps := h .plain oneDispatched _ (scheduled_reachable _ [finalizer, success] [0, 0, 1, 1, 0])
  obtain ⟨row, hrow, hstate, _⟩ := hkeeps 1 .success (by decide)
  have hstale : ((scheduled .plain oneDispatched [finalizer, success] [0, 0, 1, 1, 0]).world.store
      |>.deployments.find? 1).map Deployment.state = some .stale := by decide
  rw [hrow, Option.map_some, hstate] at hstale
  cases hstale

end Runs

end Sower.Server
