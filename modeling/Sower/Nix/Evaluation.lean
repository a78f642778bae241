import Mathlib.Algebra.BigOperators.Group.List.Basic
import Mathlib.Algebra.GroupWithZero.Nat

/-!
# Evaluations of Nix attributes

An evaluation runs `nix` on one attribute of a flake or a file. The attribute is a
derivation, which makes a result, or a set, whose names are evaluated next. What a
request finds in the end is a finite tree of evaluations.
-/

namespace Sower.Nix

section Requests

/-- `Nix.Eval.Type`. -/
inductive RequestType where
  | flake
  | path
  deriving DecidableEq, Repr

/-- `Nix.Eval.Request`. -/
structure Request where
  id : String
  type : RequestType
  path : String
  attr : Option String
  rootId : Option String
  deriving DecidableEq, Repr

/-- Status of an evaluation. -/
inductive Status where
  | ok
  | error
  | memoryLimitExceeded
  deriving DecidableEq, Repr

/-- Why a task ended before it returned, or why `nix` could not be asked. -/
inductive Reason where
  | timeout
  /-- `Request.child/2` has been given something that is no name. -/
  | badName
  | exit (text : String)
  deriving DecidableEq, Repr

/-- What the jobs process tells apart in a decoded text. Items of a list that are not
texts are `none`. -/
inductive Json where
  | null
  | map (text : String)
  | list (items : List (Option String))
  | scalar (text : String)
  deriving DecidableEq, Repr

/-- `Nix.Eval` with the output of a leaf: a map or nothing. -/
structure Eval where
  request : Request
  status : Status
  output : Option String
  errors : List String
  deriving DecidableEq, Repr

/-- Conversions that Elixir and the JSON library provide. -/
structure Formats where
  /-- `Jason.decode/1`. -/
  decode : String → Option Json
  /-- `Jason.encode!/1`. -/
  encode : String → String
  /-- `Exception.format_exit/1`. -/
  formatExit : Reason → String
  /-- `inspect/1` of the status and the evaluation that were returned. -/
  inspect : Request → Status → List String → List String → String

variable (f : Formats)

/-- `quote_component`. -/
def quoteComponent (name : String) : String := (f.encode name).replace "$\x7b" "\\$\x7b"

/-- The names that need no quotes. Like the expression in the source it lets one line
break through at the end. -/
def plainName (name : String) : Bool :=
  let letter (c : Char) : Bool := c.isAlpha || c == '_'
  match name.toList with
  | [] => false
  | first :: rest =>
    let rest := if rest.getLast? = some '\n' then rest.dropLast else rest
    letter first && rest.all fun c => letter c || c.isDigit || c == '\'' || c == '-'

/-- `Request.child/2`, with the identifier that `new_id` gives. -/
def Request.child (request : Request) (newId name : String) : Request :=
  let component := if plainName name then name else quoteComponent f name
  { request with
    attr := some (match request.attr with
      | none => component
      | some attr => attr ++ "." ++ component)
    id := newId
    rootId := some (request.rootId.getD request.id) }

/-- `build_error_result`. -/
def buildErrorResult (request : Request) (reason : Reason) : Eval :=
  { request, status := .error, output := none, errors := [f.formatExit reason] }

end Requests

section Outputs

variable {ρ ρ' : Type}

/-- Output of an evaluation that has ended. -/
inductive Output (ρ : Type) where
  | null
  | map (text : String)
  | list (targets : List ρ)
  | scalar (text : String)

/-- What a task sends: a result, or what is to be evaluated next. -/
inductive TaskResult (ρ : Type) where
  | leaf (eval : Eval)
  | branch (targets : List ρ)

/-- The same for other targets. -/
def Output.image (g : ρ → ρ') : Output ρ → Output ρ'
  | .null => .null
  | .map text => .map text
  | .list targets => .list (targets.map g)
  | .scalar text => .scalar text

/-- The same for other targets. -/
def TaskResult.image (g : ρ → ρ') : TaskResult ρ → TaskResult ρ'
  | .leaf eval => .leaf eval
  | .branch targets => .branch (targets.map g)

/-- `finalize_output`, for the printed chunks with the last one first. A text that cannot
be decoded is handed on as the list of its chunks. It raises for a list of anything but
names. -/
def finalizeOutput (f : Formats) (child chunk : String → ρ) (output : List String) :
    Option (Output ρ) :=
  match f.decode (String.join output.reverse) with
  | some (.list items) => (items.mapM id).map fun names => .list (names.map child)
  | some .null => some .null
  | some (.map text) => some (.map text)
  | some (.scalar text) => some (.scalar text)
  | none => some (if output = [] then .null else .list (output.map chunk))

/-- What `evaluate_request` makes of an evaluation that has returned. -/
def returnedResult (f : Formats) (request : Request) (status : Status)
    (printed errors : List String) : Output ρ → TaskResult ρ
  | .null => .leaf { request, status, output := none, errors }
  | .map text => .leaf { request, status, output := some text, errors }
  | .list targets =>
    if status = .ok then .branch targets
    else .leaf
      { request, status := .error, output := none
        errors := ["Unexpected return value: " ++ f.inspect request status printed errors] }
  | .scalar _ => .leaf
      { request, status := .error, output := none
        errors := ["Unexpected return value: " ++ f.inspect request status printed errors] }

theorem finalizeOutput_image {f : Formats} (g : ρ → ρ') (child chunk : String → ρ)
    (output : List String) :
    finalizeOutput f (fun name => g (child name)) (fun text => g (chunk text)) output =
      (finalizeOutput f child chunk output).map (Output.image g) := by
  unfold finalizeOutput
  cases f.decode (String.join output.reverse) with
  | none =>
    by_cases hempty : output = []
    · simp [hempty, Output.image]
    · simp [hempty, Output.image]
  | some json =>
    cases json with
    | null => rfl
    | map text => rfl
    | scalar text => rfl
    | list items =>
      cases hnames : items.mapM id with
      | none => simp [hnames]
      | some names => simp [hnames, Output.image]

theorem returnedResult_image {f : Formats} (g : ρ → ρ') {request : Request} {status : Status}
    {printed errors : List String} (output : Output ρ) :
    returnedResult f request status printed errors (output.image g) =
      (returnedResult f request status printed errors output).image g := by
  cases output with
  | null => rfl
  | map text => rfl
  | scalar text => rfl
  | list targets =>
    by_cases hok : status = .ok
    · simp [returnedResult, Output.image, TaskResult.image, hok]
    · simp [returnedResult, Output.image, TaskResult.image, hok]

end Outputs

section Trees

/-- What evaluating a request does. For a set it holds, for every name, what evaluating
the attribute of that name does, and the identifier its request is given. -/
inductive Tree where
  /-- The task ends without a result. -/
  | crashed (reason : Reason)
  /-- `nix` could not be started or did not answer in time. -/
  | failed (reason : Reason)
  /-- `nix` ended, with the printed chunks, the last one first. -/
  | exited (status : Status) (output errors : List String) (newId : String → String)
      (attr : String → Tree)

/-- An item of the queue: a request, or a chunk that was taken for one. -/
inductive Target where
  | wanted (request : Request) (tree : Tree)
  | stray (chunk : String)

variable {ρ : Type} (f : Formats)

/-- `evaluate_request`, or why the task ends without a result. -/
def evaluateRequest (request : Request) : Tree → Except Reason (TaskResult Target)
  | .crashed reason => .error reason
  | .failed reason => .ok (.leaf (buildErrorResult f request reason))
  | .exited status output errors newId attr =>
    match finalizeOutput f (fun name => .wanted (request.child f (newId name) name) (attr name))
      .stray output with
    | none => .error .badName
    | some final => .ok (returnedResult f request status output errors final)

/-- A quantity of a whole tree, from what its evaluation makes and the quantities of what
is evaluated next. -/
def Tree.fold (chunk : String → ρ) (node : Request → Except Reason (TaskResult ρ) → ρ) :
    Request → Tree → ρ
  | request, .crashed reason => node request (.error reason)
  | request, .failed reason => node request (.ok (.leaf (buildErrorResult f request reason)))
  | request, .exited status output errors newId attr =>
    node request
      (match finalizeOutput f
        (fun name => (attr name).fold chunk node (request.child f (newId name) name))
        chunk output with
      | none => .error .badName
      | some final => .ok (returnedResult f request status output errors final))

/-- The quantity of an item. -/
def Target.fold (chunk : String → ρ) (node : Request → Except Reason (TaskResult ρ) → ρ) :
    Target → ρ
  | .wanted request tree => tree.fold f chunk node request
  | .stray text => chunk text

variable {f} {chunk : String → ρ} {node : Request → Except Reason (TaskResult ρ) → ρ}

/-- The quantity of a tree comes from one evaluation and the items it makes. -/
theorem Tree.fold_eq (request : Request) (tree : Tree) :
    tree.fold f chunk node request =
      node request ((evaluateRequest f request tree).map
        (TaskResult.image (Target.fold f chunk node))) := by
  cases tree with
  | crashed reason => rfl
  | failed reason => rfl
  | exited status output errors newId attr =>
    have himage := finalizeOutput_image (f := f) (Target.fold f chunk node)
      (fun name => .wanted (request.child f (newId name) name) (attr name)) .stray output
    simp only [Target.fold] at himage
    simp only [Tree.fold, evaluateRequest, himage]
    cases finalizeOutput f
      (fun name => Target.wanted (request.child f (newId name) name) (attr name)) .stray output with
    | none => rfl
    | some final =>
      change node request (.ok (returnedResult f request status output errors
        (final.image (Target.fold f chunk node)))) = _
      rw [returnedResult_image]
      rfl

end Trees

section Quantities

variable (f : Formats)

/-- The results of an evaluation, from those of what it makes. -/
def gatherResults (request : Request) : Except Reason (TaskResult (List Eval)) → List Eval
  | .error reason => [buildErrorResult f request reason]
  | .ok (.leaf eval) => [eval]
  | .ok (.branch targets) => targets.flatten

/-- The chunks of an evaluation, from those of what it makes. -/
def gatherChunks (_ : Request) : Except Reason (TaskResult ℕ) → ℕ
  | .error _ => 0
  | .ok (.leaf _) => 0
  | .ok (.branch targets) => targets.sum

/-- The work of an evaluation, from that of what it makes. -/
def gatherWeight (_ : Request) : Except Reason (TaskResult ℕ) → ℕ
  | .error _ => 4
  | .ok (.leaf _) => 4
  | .ok (.branch targets) => 4 + (targets.map (· + 1)).sum

/-- One result for every leaf and for every task that crashes. -/
def Tree.results (request : Request) (tree : Tree) : List Eval :=
  tree.fold f (fun _ => []) (gatherResults f) request

/-- Texts that cannot be decoded but came with success, chunk by chunk. -/
def Tree.strayChunks (request : Request) (tree : Tree) : ℕ :=
  tree.fold f (fun _ => 1) gatherChunks request

/-- What is still to happen until an evaluation and all that follow it are over. -/
def Tree.weight (request : Request) (tree : Tree) : ℕ :=
  tree.fold f (fun _ => 0) gatherWeight request

/-- The results an item leads to. -/
def Target.results (target : Target) : List Eval := target.fold f (fun _ => []) (gatherResults f)

/-- The chunks among an item and all that follows it. -/
def Target.strayChunks (target : Target) : ℕ := target.fold f (fun _ => 1) gatherChunks

/-- What is still to happen until an item is done with. -/
def Target.weight (target : Target) : ℕ := target.fold f (fun _ => 0) gatherWeight

/-- Every evaluation that succeeds prints JSON. -/
def Tree.Printed (request : Request) (tree : Tree) : Prop := tree.strayChunks f request = 0

end Quantities

section Shares

variable {f : Formats} {request : Request} {tree : Tree} {eval : Eval} {targets : List Target}
  {reason : Reason}

/-- The quantity of an item is what its evaluation adds to the results together with the
quantities of the items it makes. -/
structure Conserved (f : Formats) (g : Target → ℕ) (h : Eval → ℕ) : Prop where
  leaf : ∀ {request tree eval}, evaluateRequest f request tree = .ok (.leaf eval) →
    g (.wanted request tree) = h eval
  branch : ∀ {request tree targets}, evaluateRequest f request tree = .ok (.branch targets) →
    g (.wanted request tree) = (targets.map g).sum
  crash : ∀ {request tree reason}, evaluateRequest f request tree = .error reason →
    g (.wanted request tree) = h (buildErrorResult f request reason)

theorem Tree.results_of_leaf (h : evaluateRequest f request tree = .ok (.leaf eval)) :
    tree.results f request = [eval] := by
  unfold Tree.results
  rw [Tree.fold_eq, h]
  rfl

theorem Tree.results_of_branch (h : evaluateRequest f request tree = .ok (.branch targets)) :
    tree.results f request = targets.flatMap (Target.results f) := by
  unfold Tree.results
  rw [Tree.fold_eq, h]
  rfl

theorem Tree.results_of_error (h : evaluateRequest f request tree = .error reason) :
    tree.results f request = [buildErrorResult f request reason] := by
  unfold Tree.results
  rw [Tree.fold_eq, h]
  rfl

/-- Every leaf and every crash is counted. -/
theorem conserved_results (eval : Eval) :
    Conserved f (fun target => (target.results f).count eval) (fun found => [found].count eval) where
  leaf h := congrArg (List.count eval) (Tree.results_of_leaf h)
  branch h := by
    change (Tree.results f _ _).count eval = _
    rw [Tree.results_of_branch h, List.count_flatMap]
    rfl
  crash h := congrArg (List.count eval) (Tree.results_of_error h)

/-- Chunks are only passed on. -/
theorem conserved_strayChunks : Conserved f (Target.strayChunks f) (fun _ => 0) where
  leaf h := by
    change Tree.strayChunks f _ _ = 0
    unfold Tree.strayChunks
    rw [Tree.fold_eq, h]
    rfl
  branch h := by
    change Tree.strayChunks f _ _ = _
    unfold Tree.strayChunks
    rw [Tree.fold_eq, h]
    rfl
  crash h := by
    change Tree.strayChunks f _ _ = 0
    unfold Tree.strayChunks
    rw [Tree.fold_eq, h]
    rfl

/-- Work of one evaluation and of the items it makes. -/
theorem Tree.weight_of_branch (h : evaluateRequest f request tree = .ok (.branch targets)) :
    tree.weight f request = 4 + (targets.map fun target => target.weight f + 1).sum := by
  unfold Tree.weight
  rw [Tree.fold_eq, h]
  change 4 + ((targets.map (Target.fold f _ _)).map (· + 1)).sum = _
  rw [List.map_map]
  rfl

theorem Tree.four_le_weight : 4 ≤ tree.weight f request := by
  unfold Tree.weight
  rw [Tree.fold_eq]
  generalize (evaluateRequest f request tree).map _ = outcome
  match outcome with
  | .error _ => exact Nat.le_refl 4
  | .ok (.leaf _) => exact Nat.le_refl 4
  | .ok (.branch targets) => exact Nat.le_add_right _ _

end Shares

end Sower.Nix
