import Mathlib.Data.List.Induction

/-!
# Incremental readers

A reader looks at the front of its input and takes one item off it, finds it
malformed, or asks for more. Reading is stable: input that arrives later changes
no answer but a request for more. Draining takes items as long as there are any.
How the input was cut into pieces then makes no difference to the items, to an
error, or to what is left over.
-/

namespace Incremental

/-- What a reader makes of the front of its input. -/
inductive Next (β α ε : Type) where
  | more
  | item (value : α) (rest : List β)
  | error (reason : ε)
  deriving DecidableEq, Repr

/-- A stable reader that shortens its input with every item. -/
structure Reader (β α ε : Type) where
  next : List β → Next β α ε
  shrinks : ∀ {input value rest}, next input = .item value rest → rest.length < input.length
  item_append : ∀ {input value rest}, next input = .item value rest →
    ∀ later, next (input ++ later) = .item value (rest ++ later)
  error_append : ∀ {input reason}, next input = .error reason →
    ∀ later, next (input ++ later) = .error reason

/-- How draining ends. -/
inductive Ending (β ε : Type) where
  /-- The input that is left over is the beginning of an item. -/
  | waiting (rest : List β)
  | failed (reason : ε)
  deriving DecidableEq, Repr

variable {β α ε : Type} (r : Reader β α ε)

/-- All items at the front of the input, and what follows them. -/
def Reader.drain (input : List β) : List α × Ending β ε :=
  match h : r.next input with
  | .more => ([], .waiting input)
  | .error reason => ([], .failed reason)
  | .item value rest =>
    have _shorter := r.shrinks h
    let drained := drain rest
    (value :: drained.1, drained.2)
  termination_by input.length

/-- Go on with further input after an ending. -/
def Reader.resume (drained : List α × Ending β ε) (later : List β) : List α × Ending β ε :=
  match drained.2 with
  | .failed reason => (drained.1, .failed reason)
  | .waiting rest =>
    let further := r.drain (rest ++ later)
    (drained.1 ++ further.1, further.2)

section Equations

variable {r} {input rest later : List β} {value : α} {reason : ε}

theorem drain_of_more (h : r.next input = .more) : r.drain input = ([], .waiting input) := by
  rw [Reader.drain]
  split
  · rfl
  · rename_i herror
    rw [h] at herror
    cases herror
  · rename_i hitem
    rw [h] at hitem
    cases hitem

theorem drain_of_error (h : r.next input = .error reason) :
    r.drain input = ([], .failed reason) := by
  rw [Reader.drain]
  split
  · rename_i hmore
    rw [h] at hmore
    cases hmore
  · rename_i herror
    rw [h] at herror
    cases herror
    rfl
  · rename_i hitem
    rw [h] at hitem
    cases hitem

theorem drain_of_item (h : r.next input = .item value rest) :
    r.drain input = (value :: (r.drain rest).1, (r.drain rest).2) := by
  rw [Reader.drain]
  split
  · rename_i hmore
    rw [h] at hmore
    cases hmore
  · rename_i herror
    rw [h] at herror
    cases herror
  · rename_i hitem
    rw [h] at hitem
    cases hitem
    rfl

end Equations

section Resuming

variable {r}

/-- Induction along the items of the input. -/
theorem Reader.drain_induction {motive : List β → Prop} (r : Reader β α ε)
    (more : ∀ input, r.next input = .more → motive input)
    (error : ∀ input reason, r.next input = .error reason → motive input)
    (item : ∀ input value rest, r.next input = .item value rest → motive rest → motive input)
    (input : List β) : motive input := by
  induction hlength : input.length using Nat.strongRecOn generalizing input with
  | ind n ih =>
    cases hnext : r.next input with
    | more => exact more input hnext
    | error reason => exact error input reason hnext
    | item value rest =>
      have hshorter := r.shrinks hnext
      exact item input value rest hnext (ih rest.length (by omega) rest rfl)

/-- What is left over asks for more. -/
theorem next_of_waiting {input rest : List β} (h : (r.drain input).2 = .waiting rest) :
    r.next rest = .more := by
  induction input using r.drain_induction with
  | more input hnext =>
    rw [drain_of_more hnext] at h
    cases h
    exact hnext
  | error input reason hnext =>
    rw [drain_of_error hnext] at h
    cases h
  | item input value tail hnext ih =>
    rw [drain_of_item hnext] at h
    exact ih h

/-- Draining all of the input is draining its first part and going on with the second. -/
theorem drain_append (input later : List β) :
    r.drain (input ++ later) = r.resume (r.drain input) later := by
  induction input using r.drain_induction with
  | more input hnext =>
    rw [drain_of_more hnext]
    simp [Reader.resume]
  | error input reason hnext =>
    rw [drain_of_error hnext, drain_of_error (r.error_append hnext later)]
    rfl
  | item input value rest hnext ih =>
    rw [drain_of_item hnext, drain_of_item (r.item_append hnext later), ih]
    unfold Reader.resume
    cases (r.drain rest).2 with
    | failed reason => rfl
    | waiting left => rfl

/-- Feeding the pieces of an input one after the other. -/
def Reader.feed (r : Reader β α ε) (pieces : List (List β)) : List α × Ending β ε :=
  pieces.foldl r.resume (r.drain [])

/-- How the input is cut into pieces makes no difference. -/
theorem feed_eq_drain (pieces : List (List β)) : r.feed pieces = r.drain pieces.flatten := by
  induction pieces using List.reverseRecOn with
  | nil => rfl
  | append_singleton pieces last ih =>
    have hfeed : r.feed (pieces ++ [last]) = r.resume (r.feed pieces) last := by
      unfold Reader.feed
      rw [List.foldl_append, List.foldl_cons, List.foldl_nil]
    rw [hfeed, ih, List.flatten_append, List.flatten_singleton, drain_append]

end Resuming

end Incremental
