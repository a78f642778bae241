import Mathlib.Data.List.AList

/-!
# Processes and the monitors of a watcher

A watcher puts monitors on processes. Once the process of a monitor has ended, a message
about it is on its way, and the watcher receives it at some later time. A monitor that is
taken off takes its message along.
-/

namespace Monitors

/-- The running processes and the monitors of one watcher. Numbers are not used twice,
neither for processes nor for monitors. -/
structure Processes where
  live : List ℕ
  /-- The process that each monitor is on. A monitor stays until it is taken off or its
  message is received. -/
  monitors : AList (fun _ : ℕ => ℕ)
  next : ℕ
  live_lt : ∀ pid ∈ live, pid < next
  monitors_lt : ∀ ref ∈ monitors, ref < next

namespace Processes

variable (p : Processes)

/-- A process starts. -/
def spawn : Processes where
  live := p.next :: p.live
  monitors := p.monitors
  next := p.next + 1
  live_lt := by
    intro pid hpid
    rcases List.mem_cons.mp hpid with rfl | hold
    · exact Nat.lt_succ_self _
    · exact Nat.lt_succ_of_lt (p.live_lt pid hold)
  monitors_lt ref href := Nat.lt_succ_of_lt (p.monitors_lt ref href)

/-- A process ends. -/
def exit (pid : ℕ) : Processes where
  live := p.live.filter (· != pid)
  monitors := p.monitors
  next := p.next
  live_lt other hother := p.live_lt other (List.mem_of_mem_filter hother)
  monitors_lt := p.monitors_lt

/-- The watcher puts a monitor on a process, which may have ended already. The reference
of the monitor is the number that was next. -/
def monitor (pid : ℕ) : Processes where
  live := p.live
  monitors := p.monitors.insert p.next pid
  next := p.next + 1
  live_lt other hother := Nat.lt_succ_of_lt (p.live_lt other hother)
  monitors_lt := by
    intro ref href
    rcases (AList.mem_insert p.monitors).mp href with rfl | hold
    · exact Nat.lt_succ_self _
    · exact Nat.lt_succ_of_lt (p.monitors_lt ref hold)

/-- The watcher takes a monitor off, and its message out of its mailbox. -/
def demonitor (ref : ℕ) : Processes where
  live := p.live
  monitors := p.monitors.erase ref
  next := p.next
  live_lt := p.live_lt
  monitors_lt other hother := p.monitors_lt other (AList.mem_erase.mp hother).2

/-- Another watcher, which has no monitors yet. -/
def unwatched : Processes where
  live := p.live
  monitors := ∅
  next := p.next
  live_lt := p.live_lt
  monitors_lt ref href := absurd href (AList.notMem_empty ref)

/-- The message of a monitor is on its way. -/
def Pending (ref pid : ℕ) : Prop := p.monitors.lookup ref = some pid ∧ pid ∉ p.live

variable {p} {pid ref : ℕ}

theorem mem_exit {other : ℕ} : other ∈ (p.exit pid).live ↔ other ∈ p.live ∧ other ≠ pid := by
  unfold exit
  rw [List.mem_filter, bne_iff_ne]

theorem not_mem_exit : pid ∉ (p.exit pid).live := fun h => (mem_exit.mp h).2 rfl

/-- A process that has ended does not come back. -/
theorem not_mem_spawn (hpid : pid < p.next) (hended : pid ∉ p.live) : pid ∉ p.spawn.live := by
  intro h
  rcases List.mem_cons.mp h with rfl | hlive
  · exact lt_irrefl _ hpid
  · exact hended hlive

theorem lookup_monitor {other : ℕ} :
    (p.monitor pid).monitors.lookup ref = some other ↔
      ref = p.next ∧ other = pid ∨ p.monitors.lookup ref = some other := by
  by_cases hnew : ref = p.next
  · subst hnew
    have hfree : p.monitors.lookup p.next = none :=
      AList.lookup_eq_none.mpr fun h => lt_irrefl _ (p.monitors_lt _ h)
    rw [hfree]
    unfold monitor
    rw [AList.lookup_insert, Option.some.injEq, eq_comm]
    simp
  · unfold monitor
    rw [AList.lookup_insert_ne hnew]
    exact (or_iff_right fun h => hnew h.1).symm

theorem lookup_demonitor {other gone : ℕ} :
    (p.demonitor gone).monitors.lookup ref = some other ↔
      ref ≠ gone ∧ p.monitors.lookup ref = some other := by
  unfold demonitor
  by_cases hgone : ref = gone
  · subst hgone
    rw [AList.lookup_erase]
    simp
  · rw [AList.lookup_erase_ne hgone]
    exact (and_iff_right hgone).symm

/-- A monitor is taken off once. -/
theorem demonitor_demonitor : (p.demonitor ref).demonitor ref = p.demonitor ref := by
  have herase : (p.monitors.erase ref).erase ref = p.monitors.erase ref := by
    refine AList.ext (List.kerase_of_notMem_keys ?_)
    exact fun hmem => (AList.mem_erase.mp (AList.mem_keys.mpr hmem)).1 rfl
  unfold demonitor
  simp only [herase]

end Processes

end Monitors
