import Mathlib.Data.List.Sort
import Mathlib.Data.String.Basic
import Mathlib.Logic.Function.Basic
import Sower.Lib.Stateful

/-!
# Services of the activator

The activator keeps the units of a set of seeds in a directory named by the hash of the
seeds' paths. A request copies the units of every seed there, never over what is there
already, switches systemd to them and makes the directory the current one.
-/

namespace Sower.Activator

open Stateful

section Trees

/-- A path below the directory with the units. -/
abbrev RelPath := List String

/-- Bytes of a file. -/
abbrev Content := List UInt8

/-- An entry of a directory. -/
inductive Node where
  | dir
  | file (content : Content)
  | link (target : String)
  deriving DecidableEq, Repr

/-- A directory with all that is below it. -/
abbrev Tree := RelPath → Option Node

/-- The units of a seed in the order in which they are copied: a directory comes before
what it holds. -/
structure Source where
  entries : List (RelPath × Node)
  nodup : (entries.map Prod.fst).Nodup
  parents : ∀ before e after, entries = before ++ e :: after →
    e.1 ≠ [] ∧ (e.1.dropLast = [] ∨ (e.1.dropLast, Node.dir) ∈ before)

/-- `SeedRef`. -/
structure SeedRef where
  name : String
  path : String
  deriving DecidableEq, Repr

end Trees

section Copies

/-- What becomes of an entry that is not there yet when it is its turn. -/
inductive Fate where
  | copied
  /-- It is not created: an error, or the copy has ended before. -/
  | omitted
  /-- A file is created, with something else in it than it should have. -/
  | cut (left : Content)
  deriving DecidableEq, Repr

/-- `cp --recursive --no-clobber` for one entry, and whether it is fine with it. What is
there stays; that is an error for a directory that would have to replace something else. -/
def copyEntry (fate : RelPath → Fate) (e : RelPath × Node) (t : Tree) : Bool × Tree :=
  match t e.1 with
  | some .dir => (true, t)
  | some _ => (e.2 != .dir, t)
  | none =>
    if t e.1.dropLast = some .dir then
      match fate e.1, e.2 with
      | .copied, node => (true, Function.update t e.1 (some node))
      | .cut left, .file _ => (false, Function.update t e.1 (some (.file left)))
      | _, _ => (false, t)
    else (false, t)

/-- The entries one after the other; errors do not keep it from going on. -/
def copyEntries (fate : RelPath → Fate) : List (RelPath × Node) → Tree → Bool × Tree
  | [], t => (true, t)
  | e :: rest, t =>
    let first := copyEntry fate e t
    let others := copyEntries fate rest first.2
    (first.1 && others.1, others.2)

end Copies

section Runs

/-- What a run asks of the system. -/
inductive Step where
  | readLink
  | makeRoot
  | makeUnits
  /-- The copy of the seed with the number. -/
  | copy (index : ℕ)
  | emptyDir
  | emptyUnits
  | switch
  | stateDir
  | symlink
  | rename
  deriving DecidableEq, Repr

/-- What comes of a step. A step that is not fine has failed, or the run is interrupted
there. -/
structure Answer where
  fine : Bool := true
  /-- Exit code of `sd-switch`. -/
  code : ℤ := 0
  /-- What becomes of the entries that are copied. -/
  fate : RelPath → Fate := fun _ => .copied

/-- Where a link points. -/
inductive Target where
  | absolute (path : String)
  | relative (path : String)
  deriving DecidableEq, Repr

/-- Directories with units by their hashes, and where the link to the current one points. -/
structure World where
  profiles : String → Tree
  current : Option Target

/-- Nothing has been activated. -/
def World.fresh : World := { profiles := fun _ _ => none, current := none }

/-- The directory of a hash holds something else. -/
def World.setProfile (hash : String) (t : Tree) (w : World) : World :=
  { w with profiles := Function.update w.profiles hash t }

/-- `STATE_DIR`. -/
def stateDir : String := "/var/lib/sower-activator/services"

/-- The directory of a hash. -/
def profileDir (hash : String) : String := stateDir ++ "/" ++ hash

/-- The link to the current directory. -/
def currentLink : String := stateDir ++ "/current"

/-- `content_hash`, for the hash function of a text. -/
def contentHash (digest : String → String) (seeds : List SeedRef) : String :=
  digest (String.join (((seeds.map (·.path)).mergeSort (· ≤ ·)).map (· ++ "\n")))

/-- The hash depends on the paths alone, and not on their order. -/
theorem contentHash_perm {digest : String → String} {seeds seeds' : List SeedRef}
    (h : (seeds.map (·.path)).Perm (seeds'.map (·.path))) :
    contentHash digest seeds = contentHash digest seeds' := by
  have hsorted (paths : List String) : (paths.mergeSort (· ≤ ·)).Pairwise (· ≤ ·) := by
    refine (List.pairwise_mergeSort ?_ ?_ paths).imp fun hle => of_decide_eq_true hle
    · intro a b c hab hbc
      exact decide_eq_true ((of_decide_eq_true hab).trans (of_decide_eq_true hbc))
    · intro a b
      simpa using le_total a b
  have hperm := ((List.mergeSort_perm (seeds.map (·.path)) (· ≤ ·)).trans h).trans
    (List.mergeSort_perm (seeds'.map (·.path)) (· ≤ ·)).symm
  have hsame := hperm.eq_of_pairwise (fun _ _ _ _ => le_antisymm) (hsorted _) (hsorted _)
  unfold contentHash
  rw [hsame]

/-- A run: it ends with an exit code or an error text. -/
abbrev Activation (α : Type) := Program Unit World String α

variable (store : String → Option Source) (digest : String → String) (env : Step → Answer)

/-- Go on if the step is fine. -/
def expect (step : Step) (text : String) : Activation PUnit :=
  if (env step).fine then pure ⟨⟩ else throw text

/-- The path that the link to the current directory stands for. -/
def Target.resolve : Target → String
  | .absolute path => path
  | .relative path => stateDir ++ "/" ++ path

/-- `resolve_current`. -/
def resolveCurrent : Activation (Option String) := do
  expect env .readLink ("read current symlink " ++ currentLink)
  let w ← view
  return w.current.map Target.resolve

/-- `create_dir_all` for one directory. -/
def makeDir (step : Step) (hash : String) (path : RelPath) : Activation PUnit := do
  expect env step ("create profile dir " ++ profileDir hash ++ "/systemd/system")
  let w ← view
  match w.profiles hash path with
  | none => update (World.setProfile hash (Function.update (w.profiles hash) path (some .dir)))
  | some .dir => return
  | some _ => throw ("create profile dir " ++ profileDir hash ++ "/systemd/system")

/-- The `cp` of one seed, with its exit code. -/
def copySeed (hash : String) (index : ℕ) (seed : SeedRef) : Activation ℤ := do
  expect env (.copy index) "spawn child"
  let w ← view
  match store seed.path with
  | none => return 1
  | some source =>
    let copied := copyEntries (env (.copy index)).fate source.entries (w.profiles hash)
    update (World.setProfile hash copied.2)
    return if copied.1 then 0 else 1

/-- `copy_seeds` from the seed with the number on. -/
def copySeeds (hash : String) : ℕ → List SeedRef → Activation PUnit
  | _, [] => return
  | index, seed :: rest => do
    let exit ← copySeed store env hash index seed
    if exit ≠ 0 then
      throw ("cp failed for seed " ++ seed.name ++ " with exit " ++ toString exit)
    copySeeds hash (index + 1) rest

/-- `old_units_path`: an empty directory is made if none is current. -/
def oldUnitsPath (old : Option String) : Activation PUnit := do
  if old.isNone then
    expect env .emptyDir "create temp dir"
    expect env .emptyUnits "create empty old units"

/-- `update_current`. -/
def updateCurrent (hash : String) : Activation PUnit := do
  expect env .stateDir ("create state dir " ++ stateDir)
  expect env .symlink ("symlink " ++ stateDir ++ "/current.new -> " ++ profileDir hash)
  expect env .rename ("rename " ++ stateDir ++ "/current.new -> " ++ currentLink)
  update fun w => { w with current := some (.absolute (profileDir hash)) }

/-- `run`. -/
def run (seeds : List SeedRef) : Activation ℤ := do
  let hash := contentHash digest seeds
  let old ← resolveCurrent env
  if old = some (profileDir hash) then
    return 0
  makeDir env .makeRoot hash []
  makeDir env .makeUnits hash ["system"]
  copySeeds store env hash 0 seeds
  oldUnitsPath env old
  expect env .switch "spawn child"
  if (env .switch).code ≠ 0 then
    return (env .switch).code
  updateCurrent env hash
  return 0

end Runs

end Sower.Activator
