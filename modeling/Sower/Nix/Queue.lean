import Mathlib.Algebra.Order.Ring.Int
import Mathlib.Algebra.BigOperators.Group.List.Basic
import Sower.Lib.OrderedSet

/-!
# The queue of evaluation requests

The queue is a table ordered by its keys and a counter that gives the keys out. A process that
has the queue for itself sees the items leave in the order in which they came, as off a list;
the counter is an unsigned word, and this is so until it has gone around.
-/

namespace Sower.Nix

section Operations

variable {α : Type}

/-- Items under integers in their own order. -/
abbrev Table (α : Type) := @OrderedSet ℤ α Int.instLinearOrder

/-- The table and its counter. -/
structure Queue (α : Type) where
  table : Table α
  counter : ℕ

/-- `new` -/
def Queue.new : Queue α := ⟨.empty, 0⟩

/-- `:atomics.add_get` on an unsigned counter. -/
def addGet (counter increment : ℕ) : ℕ := (counter + increment) % 2 ^ 64

/-- The items with consecutive keys. -/
def withIndex : List α → ℤ → List (ℤ × α)
  | [], _ => []
  | item :: items, key => (key, item) :: withIndex items (key + 1)

/-- The first key of a range of that many whose last one the counter has reached. -/
def startSeq (counter count : ℕ) : ℤ := (addGet counter count : ℤ) - count + 1

/-- `enqueue` of a list: one reservation of keys and one insertion. -/
def Queue.enqueueAll (q : Queue α) (items : List α) : Queue α where
  table := q.table.insertAll (withIndex items (startSeq q.counter items.length))
  counter := addGet q.counter items.length

/-- `enqueue` of one item. -/
def Queue.enqueue (q : Queue α) (item : α) : Queue α where
  table := q.table.insert ((addGet q.counter 1 : ℤ), item)
  counter := addGet q.counter 1

/-- `dequeue_loop`. Without others at work a key is stale only where it is no first one. -/
def dequeueLoop (table : Table α) : ℕ → Option ℤ → List α → List α × Table α
  | 0, _, acc => (acc.reverse, table)
  | _ + 1, none, acc => (acc.reverse, table)
  | count + 1, some key, acc =>
    match h : table.find? key with
    | some item =>
      dequeueLoop (table.erase key) count (table.erase key).first? (item :: acc)
    | none => dequeueLoop table (count + 1) table.first? acc
  termination_by count key => (count, if key = table.first? then 0 else 1)
  decreasing_by
  · exact Prod.Lex.left _ _ (Nat.lt_succ_self _)
  · have hstale : some key ≠ table.first? := by
      intro hfirst
      obtain ⟨⟨value, hmem⟩, -⟩ := OrderedSet.le_of_first? hfirst.symm
      rw [OrderedSet.find?_eq_some.mpr hmem] at h
      cases h
    rw [if_pos trivial, if_neg hstale]
    exact Prod.Lex.right _ (Nat.lt_succ_self 0)

/-- `dequeue` -/
def Queue.dequeue (q : Queue α) (count : ℕ) : List α × Queue α :=
  let (items, table) := dequeueLoop q.table count q.table.first? []
  (items, { q with table })

/-- `size` -/
def Queue.size (q : Queue α) : ℕ := q.table.size

/-- `empty?` -/
def Queue.isEmpty (q : Queue α) : Bool := q.table.size == 0

/-- The items in the order of their keys. -/
def Queue.contents (q : Queue α) : List α := q.table.entries.map Prod.snd

end Operations

section Keys

variable {α : Type} {items : List α} {key : ℤ} {entry : ℤ × α}

theorem withIndex_items (items : List α) (key : ℤ) : (withIndex items key).map Prod.snd = items := by
  induction items generalizing key with
  | nil => rfl
  | cons item items ih => rw [withIndex, List.map_cons, ih]

/-- The keys are consecutive. -/
theorem key_of_mem (h : entry ∈ withIndex items key) : key ≤ entry.1 ∧ entry.1 < key + items.length := by
  induction items generalizing key with
  | nil => cases h
  | cons item items ih =>
    rw [List.length_cons]
    rcases List.mem_cons.mp h with heq | hmem
    · rw [heq]
      constructor
      · exact le_rfl
      · push_cast
        omega
    · obtain ⟨hlower, hupper⟩ := ih hmem
      push_cast
      omega

theorem sorted_withIndex (items : List α) (key : ℤ) :
    (withIndex items key).Pairwise fun a b => a.1 < b.1 := by
  induction items generalizing key with
  | nil => exact List.Pairwise.nil
  | cons item items ih =>
    refine List.pairwise_cons.mpr ⟨?_, ih (key + 1)⟩
    intro entry hmem
    have hlower := (key_of_mem hmem).1
    change key < entry.1
    omega

/-- Up to its last value the counter gives out keys behind all earlier ones. -/
theorem startSeq_eq {counter count : ℕ} (h : counter + count < 2 ^ 64) :
    startSeq counter count = counter + 1 ∧ addGet counter count = counter + count := by
  have hadd : addGet counter count = counter + count := Nat.mod_eq_of_lt h
  refine ⟨?_, hadd⟩
  rw [startSeq, hadd]
  push_cast
  omega

end Keys

section Refinement

variable {α : Type} {q : Queue α}

/-- The keys have been given out by the counter. -/
def Queue.Sound (q : Queue α) : Prop := ∀ entry ∈ q.table.entries, entry.1 ≤ q.counter

theorem Queue.sound_new : (Queue.new : Queue α).Sound := fun _ hmem => absurd hmem List.not_mem_nil

/-- Enqueueing appends. -/
theorem Queue.enqueueAll_spec (hsound : q.Sound) {items : List α}
    (hcounter : q.counter + items.length < 2 ^ 64) :
    (q.enqueueAll items).contents = q.contents ++ items ∧ (q.enqueueAll items).Sound ∧
      (q.enqueueAll items).counter = q.counter + items.length := by
  obtain ⟨hstart, hadd⟩ := startSeq_eq hcounter
  have hentries : (q.enqueueAll items).table.entries =
      q.table.entries ++ withIndex items (q.counter + 1) := by
    rw [← hstart]
    refine OrderedSet.insertAll_of_greater (sorted_withIndex items _) ?_
    intro entry hentry record hrecord
    have hold := hsound entry hentry
    have hnew := (key_of_mem hrecord).1
    rw [hstart] at hnew
    omega
  have hcount : (q.enqueueAll items).counter = q.counter + items.length := hadd
  refine ⟨?_, ?_, hcount⟩
  · rw [contents, hentries, List.map_append, withIndex_items, ← contents]
  · intro entry hmem
    rw [hcount]
    rw [hentries] at hmem
    push_cast
    rcases List.mem_append.mp hmem with hold | hnew
    · have hle := hsound entry hold
      omega
    · have hless := (key_of_mem hnew).2
      omega

/-- One item is enqueued as a list of one. -/
theorem Queue.enqueue_eq (item : α) (hcounter : q.counter + 1 < 2 ^ 64) :
    q.enqueue item = q.enqueueAll [item] := by
  have hstart : startSeq q.counter 1 = (addGet q.counter 1 : ℤ) := by
    obtain ⟨hstart, hadd⟩ := startSeq_eq hcounter
    rw [hstart, hadd]
    push_cast
    rfl
  unfold enqueue enqueueAll
  simp only [List.length_singleton, withIndex, hstart]
  rfl

/-- The loop takes the first entries, as many as are asked for and there are. -/
theorem dequeueLoop_eq (table : Table α) (count : ℕ) (acc : List α) :
    (dequeueLoop table count table.first? acc).1 =
        acc.reverse ++ (table.entries.map Prod.snd).take count ∧
      (dequeueLoop table count table.first? acc).2.entries = table.entries.drop count := by
  induction count generalizing table acc with
  | zero =>
    rw [dequeueLoop]
    simp
  | succ count ih =>
    cases hentries : table.entries with
    | nil =>
      rw [OrderedSet.first?_eq_none.mpr hentries, dequeueLoop]
      simp [hentries]
    | cons record records =>
      obtain ⟨hfirst, hfind, hrest⟩ := OrderedSet.take_head hentries
      obtain ⟨hitems, htable⟩ := ih (table.erase record.1) (record.2 :: acc)
      rw [hfirst, dequeueLoop]
      split
      · rename_i item hitem
        rw [hfind] at hitem
        cases hitem
        rw [hitems, htable, hrest]
        simp
      · rename_i hnone
        rw [hfind] at hnone
        cases hnone

theorem Queue.dequeue_spec (hsound : q.Sound) (count : ℕ) :
    (q.dequeue count).1 = q.contents.take count ∧
      (q.dequeue count).2.contents = q.contents.drop count ∧ (q.dequeue count).2.Sound ∧
      (q.dequeue count).2.counter = q.counter := by
  obtain ⟨hitems, htable⟩ := dequeueLoop_eq q.table count []
  have hleft : (q.dequeue count).2.table.entries = q.table.entries.drop count := htable
  refine ⟨hitems, ?_, ?_, rfl⟩
  · rw [contents, hleft, List.map_drop, ← contents]
  · intro entry hmem
    rw [hleft] at hmem
    exact hsound entry (List.mem_of_mem_drop hmem)

theorem Queue.size_eq (q : Queue α) : q.size = q.contents.length := by
  simp [size, contents, OrderedSet.size]

/-- What is asked of a queue. -/
inductive QueueOp (α : Type) where
  | enqueueAll (items : List α)
  | enqueue (item : α)
  | dequeue (count : ℕ)
  | size
  | isEmpty

/-- What a queue answers. -/
inductive QueueAnswer (α : Type) where
  | ok
  | items (items : List α)
  | size (size : ℕ)
  | isEmpty (empty : Bool)
  deriving DecidableEq

/-- The answer of the table with its counter, and what becomes of it. -/
def Queue.answer (q : Queue α) : QueueOp α → QueueAnswer α × Queue α
  | .enqueueAll items => (.ok, q.enqueueAll items)
  | .enqueue item => (.ok, q.enqueue item)
  | .dequeue count => let (items, q) := q.dequeue count; (.items items, q)
  | .size => (.size q.size, q)
  | .isEmpty => (.isEmpty q.isEmpty, q)

/-- What a queue is for: the answer of a list that is appended to at its end and taken from at
its front. -/
def fifoAnswer (contents : List α) : QueueOp α → QueueAnswer α × List α
  | .enqueueAll items => (.ok, contents ++ items)
  | .enqueue item => (.ok, contents ++ [item])
  | .dequeue count => (.items (contents.take count), contents.drop count)
  | .size => (.size contents.length, contents)
  | .isEmpty => (.isEmpty contents.isEmpty, contents)

/-- The answers to operations one after the other, and what is left. -/
def answers {σ : Type} (answer : σ → QueueOp α → QueueAnswer α × σ) :
    List (QueueOp α) → σ → List (QueueAnswer α) × σ
  | [], s => ([], s)
  | op :: ops, s =>
    let (first, s) := answer s op
    let (rest, s) := answers answer ops s
    (first :: rest, s)

/-- How many keys an operation reserves. -/
def QueueOp.keys : QueueOp α → ℕ
  | .enqueueAll items => items.length
  | .enqueue _ => 1
  | _ => 0

/-- An operation is answered as by a list. -/
theorem Queue.answer_spec (hsound : q.Sound) (op : QueueOp α)
    (hcounter : q.counter + op.keys < 2 ^ 64) :
    (q.answer op).1 = (fifoAnswer q.contents op).1 ∧
      (q.answer op).2.contents = (fifoAnswer q.contents op).2 ∧ (q.answer op).2.Sound ∧
      (q.answer op).2.counter = q.counter + op.keys := by
  cases op with
  | enqueueAll items =>
    obtain ⟨hcontents, hsound', hcounter'⟩ := q.enqueueAll_spec hsound hcounter
    exact ⟨rfl, hcontents, hsound', hcounter'⟩
  | enqueue item =>
    have hcount : q.counter + [item].length < 2 ^ 64 := hcounter
    obtain ⟨hcontents, hsound', hcounter'⟩ := q.enqueueAll_spec hsound hcount
    rw [← q.enqueue_eq item hcounter] at hcontents hsound' hcounter'
    exact ⟨rfl, hcontents, hsound', hcounter'⟩
  | dequeue count =>
    obtain ⟨hitems, hcontents, hsound', hcounter'⟩ := q.dequeue_spec hsound count
    exact ⟨congrArg QueueAnswer.items hitems, hcontents, hsound', hcounter'⟩
  | size => exact ⟨congrArg QueueAnswer.size q.size_eq, rfl, hsound, rfl⟩
  | isEmpty =>
    refine ⟨congrArg QueueAnswer.isEmpty ?_, rfl, hsound, rfl⟩
    change (q.size == 0) = q.contents.isEmpty
    rw [q.size_eq]
    cases q.contents with
    | nil => rfl
    | cons item items => rfl

theorem Queue.answers_spec (hsound : q.Sound) (ops : List (QueueOp α))
    (hcounter : q.counter + (ops.map QueueOp.keys).sum < 2 ^ 64) :
    (answers Queue.answer ops q).1 = (answers fifoAnswer ops q.contents).1 ∧
      (answers Queue.answer ops q).2.contents = (answers fifoAnswer ops q.contents).2 := by
  induction ops generalizing q with
  | nil => exact ⟨rfl, rfl⟩
  | cons op ops ih =>
    rw [List.map_cons, List.sum_cons] at hcounter
    obtain ⟨hanswer, hcontents, hsound', hcounter'⟩ := q.answer_spec hsound op (by omega)
    obtain ⟨hrest, hleft⟩ := ih hsound' (by omega)
    rw [hcontents] at hrest hleft
    exact ⟨congrArg₂ List.cons hanswer hrest, hleft⟩

end Refinement

/-- A process that has a new queue for itself is answered to any operations as by a list, until
the counter has gone around. -/
theorem queue_refines_fifo {α : Type} (ops : List (QueueOp α))
    (hcounter : (ops.map QueueOp.keys).sum < 2 ^ 64) :
    (answers Queue.answer ops Queue.new).1 = (answers fifoAnswer ops ([] : List α)).1 ∧
      (answers Queue.answer ops Queue.new).2.contents = (answers fifoAnswer ops ([] : List α)).2 :=
  Queue.answers_spec Queue.sound_new ops (by simpa [Queue.new] using hcounter)

/-- Three items and two more, taken off three at a time. -/
theorem queue_refines_fifo_five :
    (answers Queue.answer [.enqueueAll [1, 2, 3], .enqueue 4, .dequeue 3, .enqueueAll [5], .dequeue 3,
        .isEmpty] (Queue.new : Queue ℕ)).1 =
      [.ok, .ok, .items [1, 2, 3], .ok, .items [4, 5], .isEmpty true] :=
  (queue_refines_fifo _ (by decide)).1

end Sower.Nix
