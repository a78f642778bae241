import Mathlib.Data.List.Nodup
import Mathlib.Logic.Function.Basic
import Sower.Nix.Queue

/-!
# A queue among several processes

Table and counter are shared without a lock: a process first reserves keys and inserts its
items later, and it asks for the first key before it takes the entry. Whatever the order of
these steps, no item is lost or taken twice, every process returns what it has taken, and items
leave in the order of their keys as far as they were there in time. In particular the items of
one call leave in their order, and behind those of calls that were over before it began.
-/

namespace Sower.Nix

section Steps

variable {α : Type}

/-- Where a process is in its call. -/
inductive QueueClient (α : Type) where
  | idle
  /-- Its keys are reserved. -/
  | inserting (records : List (ℤ × α))
  /-- It is about to ask for the first key. -/
  | looking (count : ℕ) (acc : List α)
  /-- It has been told the first key. -/
  | holding (count : ℕ) (key : Option ℤ) (acc : List α)

/-- What happens to an item. -/
inductive QueueEvent (α : Type) where
  | reserved (record : ℤ × α)
  | inserted (record : ℤ × α)
  | took (client : ℕ) (record : ℤ × α)

/-- The queue, the processes and what has happened. -/
structure QueueWorld (α : Type) where
  queue : Queue α
  clients : ℕ → QueueClient α
  log : List (QueueEvent α)
  /-- What each process has returned from its calls of `dequeue`. -/
  returned : ℕ → List (List α)

/-- A new queue. -/
def QueueWorld.start : QueueWorld α := ⟨.new, fun _ => .idle, [], fun _ => []⟩

variable (w : QueueWorld α)

/-- The process goes on to another place in its call, and this happens. -/
def QueueWorld.move (i : ℕ) (client : QueueClient α) (events : List (QueueEvent α)) : QueueWorld α :=
  { w with clients := Function.update w.clients i client, log := w.log ++ events }

/-- The records of a reservation. -/
def QueueWorld.reservation (items : List α) : List (ℤ × α) :=
  withIndex items (startSeq w.queue.counter items.length)

/-- After `:atomics.add_get`. -/
def QueueWorld.reserve (i : ℕ) (items : List α) : QueueWorld α :=
  { w.move i (.inserting (w.reservation items)) ((w.reservation items).map .reserved) with
    queue := { w.queue with counter := addGet w.queue.counter items.length } }

/-- After `:ets.insert`. -/
def QueueWorld.insert (i : ℕ) (records : List (ℤ × α)) : QueueWorld α :=
  { w.move i .idle (records.map .inserted) with
    queue := { w.queue with table := w.queue.table.insertAll records } }

/-- After `:ets.take` that has found an entry. -/
def QueueWorld.take (i count : ℕ) (record : ℤ × α) (acc : List α) : QueueWorld α :=
  { w.move i (.looking count (record.2 :: acc)) [.took i record] with
    queue := { w.queue with table := w.queue.table.erase record.1 } }

/-- After a return from `dequeue`. -/
def QueueWorld.finish (i : ℕ) (acc : List α) : QueueWorld α :=
  { w.move i .idle [] with
    returned := Function.update w.returned i (w.returned i ++ [acc.reverse]) }

/-- One atomic step of one process; the counter has not gone around. -/
inductive QueueStep : QueueWorld α → QueueWorld α → Prop
  | reserve (w : QueueWorld α) (i : ℕ) (items : List α) (idle : w.clients i = .idle)
      (room : w.queue.counter + items.length < 2 ^ 64) : QueueStep w (w.reserve i items)
  | insert (w : QueueWorld α) (i : ℕ) (records : List (ℤ × α))
      (pending : w.clients i = .inserting records) : QueueStep w (w.insert i records)
  | call (w : QueueWorld α) (i count : ℕ) (idle : w.clients i = .idle) :
      QueueStep w (w.move i (.looking count []) [])
  | look (w : QueueWorld α) (i count : ℕ) (acc : List α)
      (asking : w.clients i = .looking count acc) :
      QueueStep w (w.move i (.holding count w.queue.table.first? acc) [])
  | take (w : QueueWorld α) (i count : ℕ) (key : ℤ) (item : α) (acc : List α)
      (told : w.clients i = .holding (count + 1) (some key) acc)
      (found : w.queue.table.find? key = some item) : QueueStep w (w.take i count (key, item) acc)
  /-- The key was already taken. -/
  | stale (w : QueueWorld α) (i count : ℕ) (key : ℤ) (acc : List α)
      (told : w.clients i = .holding (count + 1) (some key) acc)
      (gone : w.queue.table.find? key = none) :
      QueueStep w (w.move i (.looking (count + 1) acc) [])
  | finish (w : QueueWorld α) (i count : ℕ) (key : Option ℤ) (acc : List α)
      (told : w.clients i = .holding count key acc) (enough : count = 0 ∨ key = none) :
      QueueStep w (w.finish i acc)

/-- Worlds that processes can get into. -/
inductive QueueReachable : QueueWorld α → Prop
  | start : QueueReachable .start
  | step {w w' : QueueWorld α} (h : QueueReachable w) (hstep : QueueStep w w') : QueueReachable w'

end Steps

section Order

variable {ε : Type} {x y : ε} {log events : List ε}

/-- What happens later does not change what came before what, unless it is the later one. -/
theorem pair_of_append (h : [x, y].Sublist (log ++ events)) (hy : y ∉ events) :
    [x, y].Sublist log := by
  obtain ⟨first, second, heq, hfirst, hsecond⟩ := List.sublist_append_iff.mp h
  have hnil : second = [] := by
    rcases List.eq_nil_or_concat second with hnil | ⟨init, last, hlast⟩
    · exact hnil
    · have hsame : first ++ init = [x] ∧ [last] = [y] := by
        rw [hlast, List.concat_eq_append, ← List.append_assoc] at heq
        have hsplit : first ++ init ++ [last] = [x] ++ [y] := heq.symm
        exact List.append_inj' hsplit rfl
      rw [hlast, List.concat_eq_append, hsame.2] at hsecond
      exact absurd (hsecond.subset (List.mem_append_right _ List.mem_cons_self)) hy
  rw [hnil, List.append_nil] at heq
  rw [heq]
  exact hfirst

/-- What has happened came before what happens. -/
theorem pair_append (hx : x ∈ log) (hy : y ∈ events) : [x, y].Sublist (log ++ events) := by
  have hfirst : [x].Sublist log := List.singleton_sublist.mpr hx
  have hsecond : [y].Sublist events := List.singleton_sublist.mpr hy
  exact hfirst.append hsecond

theorem pair_mem (h : [x, y].Sublist log) : x ∈ log ∧ y ∈ log :=
  ⟨h.subset List.mem_cons_self, h.subset (List.mem_cons_of_mem _ List.mem_cons_self)⟩

end Order

section Booking

variable {α : Type} {w w' : QueueWorld α} {i : ℕ} {records : List (ℤ × α)}

theorem move_clients (i : ℕ) (client : QueueClient α) (events : List (QueueEvent α)) (j : ℕ) :
    (w.move i client events).clients j = if j = i then client else w.clients j :=
  Function.update_apply _ _ _ _

/-- Keys that are given out: each belongs to one record, and the records that are not inserted
are those that some process is about to insert. -/
structure QueueWorld.Booked (w : QueueWorld α) : Prop where
  le : ∀ r, .reserved r ∈ w.log → r.1 ≤ (w.queue.counter : ℤ)
  unique : ∀ r r', .reserved r ∈ w.log → .reserved r' ∈ w.log → r.1 = r'.1 → r = r'
  inserted : ∀ r, .inserted r ∈ w.log → .reserved r ∈ w.log
  kept : ∀ r, .reserved r ∈ w.log →
    .inserted r ∈ w.log ∨ ∃ i records, w.clients i = .inserting records ∧ r ∈ records
  pending : ∀ i records, w.clients i = .inserting records →
    (records.map Prod.fst).Nodup ∧ ∀ r ∈ records, .reserved r ∈ w.log ∧ .inserted r ∉ w.log
  disjoint : ∀ i j records records', w.clients i = .inserting records →
    w.clients j = .inserting records' → ∀ r ∈ records, r ∈ records' → i = j
  /-- What has been inserted has a smaller key than what is reserved later. -/
  order : ∀ r r', [.inserted r', .reserved r].Sublist w.log → r'.1 < r.1
  /-- What has been inserted before a key is reserved has been so before its item is inserted. -/
  behind : ∀ r r', [.inserted r', .reserved r].Sublist w.log → .inserted r ∈ w.log →
    [.inserted r', .inserted r].Sublist w.log

/-- A process that inserts nothing before and after, and no event about keys. -/
theorem QueueWorld.Booked.quiet (h : w.Booked) {client : QueueClient α}
    {events : List (QueueEvent α)} (hclient : ∀ records, client ≠ .inserting records)
    (hbefore : ∀ records, w.clients i ≠ .inserting records)
    (hevents : ∀ r, .reserved r ∉ events ∧ .inserted r ∉ events)
    (hcounter : w'.queue.counter = w.queue.counter)
    (hclients : w'.clients = (w.move i client events).clients)
    (hlog : w'.log = w.log ++ events) : w'.Booked := by
  have hreserved : ∀ r, .reserved r ∈ w'.log ↔ .reserved r ∈ w.log := by
    intro r
    rw [hlog, List.mem_append]
    exact ⟨fun hmem => hmem.resolve_right (hevents r).1, Or.inl⟩
  have hinserted : ∀ r, .inserted r ∈ w'.log ↔ .inserted r ∈ w.log := by
    intro r
    rw [hlog, List.mem_append]
    exact ⟨fun hmem => hmem.resolve_right (hevents r).2, Or.inl⟩
  have hpending : ∀ j records, w'.clients j = .inserting records ↔
      w.clients j = .inserting records := by
    intro j records
    rw [hclients, move_clients]
    by_cases hj : j = i
    · rw [if_pos hj, hj]
      exact ⟨fun heq => absurd heq (hclient records), fun heq => absurd heq (hbefore records)⟩
    · rw [if_neg hj]
  constructor
  · intro r hr
    rw [hcounter]
    exact h.le r ((hreserved r).mp hr)
  · intro r r' hr hr'
    exact h.unique r r' ((hreserved r).mp hr) ((hreserved r').mp hr')
  · intro r hr
    exact (hreserved r).mpr (h.inserted r ((hinserted r).mp hr))
  · intro r hr
    rcases h.kept r ((hreserved r).mp hr) with hin | ⟨j, records, hj, hmem⟩
    · exact Or.inl ((hinserted r).mpr hin)
    · exact Or.inr ⟨j, records, (hpending j records).mpr hj, hmem⟩
  · intro j records hj
    obtain ⟨hnodup, hall⟩ := h.pending j records ((hpending j records).mp hj)
    refine ⟨hnodup, fun r hr => ?_⟩
    rw [hreserved, hinserted]
    exact hall r hr
  · intro j k records records' hj hk
    exact h.disjoint j k records records' ((hpending j records).mp hj) ((hpending k records').mp hk)
  · intro r r' hpair
    rw [hlog] at hpair
    exact h.order r r' (pair_of_append hpair (hevents r).1)
  · intro r r' hpair hin
    rw [hlog] at hpair ⊢
    have hbefore := h.behind r r' (pair_of_append hpair (hevents r).1) ((hinserted r).mp hin)
    exact List.sublist_append_of_sublist_left hbefore

theorem QueueWorld.Booked.reserve (h : w.Booked) {items : List α} (hidle : w.clients i = .idle)
    (hroom : w.queue.counter + items.length < 2 ^ 64) : (w.reserve i items).Booked := by
  obtain ⟨hstart, hadd⟩ := startSeq_eq hroom
  have hkeys : ∀ r ∈ w.reservation items, (w.queue.counter : ℤ) < r.1 ∧
      r.1 ≤ w.queue.counter + items.length := by
    intro r hr
    have hbounds := key_of_mem hr
    rw [hstart] at hbounds
    omega
  have hnodup : ((w.reservation items).map Prod.fst).Nodup := by
    refine List.Pairwise.map _ (fun a b hless => ?_) (sorted_withIndex items _)
    exact ne_of_lt hless
  have hfresh : ∀ r ∈ w.reservation items, .reserved r ∉ w.log := by
    intro r hr hold
    have hle := h.le r hold
    have hless := (hkeys r hr).1
    omega
  have hreserved : ∀ r, .reserved r ∈ (w.reserve i items).log ↔
      .reserved r ∈ w.log ∨ r ∈ w.reservation items := by
    intro r
    change _ ∈ w.log ++ (w.reservation items).map _ ↔ _
    simp
  have hinserted : ∀ r, .inserted r ∈ (w.reserve i items).log ↔ .inserted r ∈ w.log := by
    intro r
    change _ ∈ w.log ++ (w.reservation items).map _ ↔ _
    simp
  have hclients : ∀ j, (w.reserve i items).clients j =
      if j = i then .inserting (w.reservation items) else w.clients j :=
    Function.update_apply w.clients i _
  have hothers : ∀ {j records}, (w.reserve i items).clients j = .inserting records →
      (j = i ∧ records = w.reservation items) ∨ w.clients j = .inserting records := by
    intro j records hj
    rw [hclients] at hj
    split at hj
    · rename_i hi
      cases hj
      exact Or.inl ⟨hi, rfl⟩
    · exact Or.inr hj
  have hcounter : ((w.reserve i items).queue.counter : ℤ) = w.queue.counter + items.length := by
    change ((addGet w.queue.counter items.length : ℕ) : ℤ) = _
    rw [hadd]
    push_cast
    rfl
  constructor
  · intro r hr
    rw [hcounter]
    rcases (hreserved r).mp hr with hold | hnew
    · have hle := h.le r hold
      omega
    · exact (hkeys r hnew).2
  · intro r r' hr hr' hsame
    rcases (hreserved r).mp hr with hold | hnew
    · rcases (hreserved r').mp hr' with hold' | hnew'
      · exact h.unique r r' hold hold' hsame
      · have hle := h.le r hold
        have hless := (hkeys r' hnew').1
        omega
    · rcases (hreserved r').mp hr' with hold' | hnew'
      · have hle := h.le r' hold'
        have hless := (hkeys r hnew).1
        omega
      · exact List.inj_on_of_nodup_map hnodup hnew hnew' hsame
  · intro r hr
    exact (hreserved r).mpr (Or.inl (h.inserted r ((hinserted r).mp hr)))
  · intro r hr
    rcases (hreserved r).mp hr with hold | hnew
    · rcases h.kept r hold with hin | ⟨j, records, hj, hmem⟩
      · exact Or.inl ((hinserted r).mpr hin)
      · have hne : j ≠ i := by
          intro heq
          rw [heq, hidle] at hj
          cases hj
        exact Or.inr ⟨j, records, by rw [hclients, if_neg hne, hj], hmem⟩
    · exact Or.inr ⟨i, w.reservation items, by rw [hclients, if_pos rfl], hnew⟩
  · intro j records hj
    rcases hothers hj with ⟨-, heq⟩ | hold
    · rw [heq]
      refine ⟨hnodup, fun r hr => ⟨(hreserved r).mpr (Or.inr hr), fun hin => ?_⟩⟩
      exact hfresh r hr (h.inserted r ((hinserted r).mp hin))
    · obtain ⟨hkeys', hall⟩ := h.pending j records hold
      refine ⟨hkeys', fun r hr => ?_⟩
      rw [hreserved, hinserted]
      exact ⟨Or.inl (hall r hr).1, (hall r hr).2⟩
  · intro j k records records' hj hk r hr hr'
    rcases hothers hj with ⟨hji, heq⟩ | hold
    · rcases hothers hk with ⟨hki, -⟩ | hold'
      · rw [hji, hki]
      · rw [heq] at hr
        exact absurd ((h.pending k records' hold').2 r hr').1 (hfresh r hr)
    · rcases hothers hk with ⟨-, heq⟩ | hold'
      · rw [heq] at hr'
        exact absurd ((h.pending j records hold).2 r hr).1 (hfresh r hr')
      · exact h.disjoint j k records records' hold hold' r hr hr'
  · intro r r' hpair
    by_cases hnew : r ∈ w.reservation items
    · have hin := (hinserted r').mp (pair_mem hpair).1
      have hle := h.le r' (h.inserted r' hin)
      have hless := (hkeys r hnew).1
      omega
    · refine h.order r r' (pair_of_append hpair fun hmem => ?_)
      obtain ⟨record, hrecord, heq⟩ := List.mem_map.mp hmem
      cases heq
      exact hnew hrecord
  · intro r r' hpair hin
    have hin := (hinserted r).mp hin
    have hold : QueueEvent.reserved r ∉ (w.reservation items).map QueueEvent.reserved := by
      intro hmem
      obtain ⟨record, hrecord, heq⟩ := List.mem_map.mp hmem
      cases heq
      exact hfresh r hrecord (h.inserted r hin)
    exact List.sublist_append_of_sublist_left (h.behind r r' (pair_of_append hpair hold) hin)

theorem QueueWorld.Booked.insert (h : w.Booked) (hpending : w.clients i = .inserting records) :
    (w.insert i records).Booked := by
  obtain ⟨hnodup, hrecords⟩ := h.pending i records hpending
  have hreserved : ∀ r, .reserved r ∈ (w.insert i records).log ↔ .reserved r ∈ w.log := by
    intro r
    change _ ∈ w.log ++ records.map _ ↔ _
    simp
  have hinserted : ∀ r, .inserted r ∈ (w.insert i records).log ↔
      .inserted r ∈ w.log ∨ r ∈ records := by
    intro r
    change _ ∈ w.log ++ records.map _ ↔ _
    simp
  have hclients : ∀ j, (w.insert i records).clients j = if j = i then .idle else w.clients j :=
    Function.update_apply w.clients i _
  have hothers : ∀ {j other}, (w.insert i records).clients j = .inserting other →
      j ≠ i ∧ w.clients j = .inserting other := by
    intro j other hj
    rw [hclients] at hj
    split at hj
    · cases hj
    · exact ⟨‹_›, hj⟩
  have hpair : ∀ {r r'}, [.inserted r', .reserved r].Sublist (w.insert i records).log →
      [.inserted r', .reserved r].Sublist w.log := by
    intro r r' hpair
    refine pair_of_append hpair fun hmem => ?_
    obtain ⟨record, -, heq⟩ := List.mem_map.mp hmem
    cases heq
  constructor
  · intro r hr
    exact h.le r ((hreserved r).mp hr)
  · intro r r' hr hr'
    exact h.unique r r' ((hreserved r).mp hr) ((hreserved r').mp hr')
  · intro r hr
    rw [hreserved]
    rcases (hinserted r).mp hr with hold | hnew
    · exact h.inserted r hold
    · exact (hrecords r hnew).1
  · intro r hr
    rw [hinserted]
    rcases h.kept r ((hreserved r).mp hr) with hin | ⟨j, other, hj, hmem⟩
    · exact Or.inl (Or.inl hin)
    · by_cases hi : j = i
      · rw [hi, hpending] at hj
        cases hj
        exact Or.inl (Or.inr hmem)
      · exact Or.inr ⟨j, other, by rw [hclients, if_neg hi, hj], hmem⟩
  · intro j other hj
    obtain ⟨hne, hold⟩ := hothers hj
    obtain ⟨hkeys, hall⟩ := h.pending j other hold
    refine ⟨hkeys, fun r hr => ⟨(hreserved r).mpr (hall r hr).1, fun hin => ?_⟩⟩
    rcases (hinserted r).mp hin with hin | hmine
    · exact (hall r hr).2 hin
    · exact hne (h.disjoint j i other records hold hpending r hr hmine)
  · intro j k other other' hj hk
    exact h.disjoint j k other other' (hothers hj).2 (hothers hk).2
  · exact fun r r' hlater => h.order r r' (hpair hlater)
  · intro r r' hlater hin
    have hbefore := hpair hlater
    rcases (hinserted r).mp hin with hold | hnew
    · exact List.sublist_append_of_sublist_left (h.behind r r' hbefore hold)
    · exact pair_append (pair_mem hbefore).1 (List.mem_map_of_mem hnew)

end Booking

section Fairness

variable {α : Type} {w w' : QueueWorld α} {i : ℕ} {records : List (ℤ × α)}
  {log events : List (QueueEvent α)} {key : ℤ}

/-- The record that is taken. -/
def QueueEvent.taken? : QueueEvent α → Option (ℤ × α)
  | .took _ record => some record
  | _ => none

/-- Everything that was in the table before a key, and is before it, has been taken. -/
structure Held (log : List (QueueEvent α)) (key : ℤ) : Prop where
  exists_record : ∃ r, r.1 = key ∧ .inserted r ∈ log
  taken : ∀ r r', r.1 = key → r'.1 < key → [.inserted r', .inserted r].Sublist log →
    ∃ j, .took j r' ∈ log

/-- A key stays the first one for whom it was. -/
theorem Held.quiet (h : Held log key) (hevents : ∀ r, .inserted r ∉ events) :
    Held (log ++ events) key := by
  obtain ⟨r, hkey, hin⟩ := h.exists_record
  refine ⟨⟨r, hkey, List.mem_append_left _ hin⟩, ?_⟩
  intro r r' hkey hless hpair
  obtain ⟨j, htook⟩ := h.taken r r' hkey hless (pair_of_append hpair (hevents r))
  exact ⟨j, List.mem_append_left _ htook⟩

/-- The table holds what is inserted and not taken, nothing is taken twice, and everything is
taken in order. -/
structure QueueWorld.Fair (w : QueueWorld α) : Prop where
  table : ∀ r, r ∈ w.queue.table.entries ↔ .inserted r ∈ w.log ∧ ∀ i, .took i r ∉ w.log
  took : ∀ i r, .took i r ∈ w.log → .inserted r ∈ w.log
  once : (w.log.filterMap QueueEvent.taken?).Nodup
  held : ∀ i count key acc, w.clients i = .holding count (some key) acc → Held w.log key
  fifo : ∀ i r r', .took i r ∈ w.log → r'.1 < r.1 → [.inserted r', .inserted r].Sublist w.log →
    ∃ j, [.took j r', .took i r].Sublist w.log

/-- Nothing happens to the table. -/
theorem QueueWorld.Fair.quiet (h : w.Fair) (hlog : w'.log = w.log ++ events)
    (hinserted : ∀ r, .inserted r ∉ events) (htook : ∀ i r, .took i r ∉ events)
    (htable : w'.queue.table = w.queue.table)
    (hheld : ∀ i count key acc, w'.clients i = .holding count (some key) acc → Held w.log key) :
    w'.Fair := by
  have hin : ∀ r, .inserted r ∈ w'.log ↔ .inserted r ∈ w.log := by
    intro r
    rw [hlog, List.mem_append]
    exact ⟨fun hmem => hmem.resolve_right (hinserted r), Or.inl⟩
  have htaken : ∀ i r, .took i r ∈ w'.log ↔ .took i r ∈ w.log := by
    intro i r
    rw [hlog, List.mem_append]
    exact ⟨fun hmem => hmem.resolve_right (htook i r), Or.inl⟩
  have hnone : events.filterMap QueueEvent.taken? = [] := by
    rw [List.filterMap_eq_nil_iff]
    intro event hmem
    cases event with
    | reserved r => rfl
    | inserted r => rfl
    | took j r => exact absurd hmem (htook j r)
  constructor
  · intro r
    simp only [htable, hin, htaken]
    exact h.table r
  · intro i r hr
    exact (hin r).mpr (h.took i r ((htaken i r).mp hr))
  · rw [hlog, List.filterMap_append, hnone, List.append_nil]
    exact h.once
  · intro i count key acc hi
    rw [hlog]
    exact (hheld i count key acc hi).quiet hinserted
  · intro i r r' hr hless hpair
    rw [hlog] at hpair ⊢
    obtain ⟨j, hbefore⟩ := h.fifo i r r' ((htaken i r).mp hr) hless
      (pair_of_append hpair (hinserted r))
    exact ⟨j, List.sublist_append_of_sublist_left hbefore⟩

/-- A process that is told the first key. -/
theorem QueueWorld.Fair.first (h : w.Fair) (hfirst : w.queue.table.first? = some key) :
    Held w.log key := by
  obtain ⟨⟨value, hmem⟩, hle⟩ := OrderedSet.le_of_first? hfirst
  refine ⟨⟨(key, value), rfl, ((h.table _).mp hmem).1⟩, ?_⟩
  intro r r' hkey hless hpair
  by_contra hnone
  have htable : r' ∈ w.queue.table.entries :=
    (h.table r').mpr ⟨(pair_mem hpair).1, fun j htook => hnone ⟨j, htook⟩⟩
  exact absurd (hle r' htable) (not_le.mpr hless)

theorem QueueWorld.Fair.insert (h : w.Fair) (hbooked : w.Booked)
    (hpending : w.clients i = .inserting records) : (w.insert i records).Fair := by
  obtain ⟨hnodup, hrecords⟩ := hbooked.pending i records hpending
  have hin : ∀ r, .inserted r ∈ (w.insert i records).log ↔ .inserted r ∈ w.log ∨ r ∈ records := by
    intro r
    change _ ∈ w.log ++ records.map _ ↔ _
    simp
  have htaken : ∀ j r, .took j r ∈ (w.insert i records).log ↔ .took j r ∈ w.log := by
    intro j r
    change _ ∈ w.log ++ records.map _ ↔ _
    simp
  have hnew : ∀ entry ∈ w.queue.table.entries, ∀ record ∈ records, entry.1 ≠ record.1 := by
    intro entry hentry record hrecord hsame
    have hinserted := ((h.table entry).mp hentry).1
    obtain ⟨hreserved, hnot⟩ := hrecords record hrecord
    have heq := hbooked.unique entry record (hbooked.inserted entry hinserted) hreserved hsame
    exact hnot (heq ▸ hinserted)
  have hold : ∀ {r}, .inserted r ∈ w.log → .inserted r ∉ records.map QueueEvent.inserted := by
    intro r hr hmem
    obtain ⟨record, hrecord, heq⟩ := List.mem_map.mp hmem
    cases heq
    exact (hrecords r hrecord).2 hr
  constructor
  · intro r
    simp only [hin, htaken]
    change r ∈ (w.queue.table.insertAll records).entries ↔ _
    rw [OrderedSet.mem_insertAll_of_new hnew hnodup, h.table]
    constructor
    · rintro (hmem | ⟨hinserted, hnone⟩)
      · exact ⟨Or.inr hmem, fun j htook => (hrecords r hmem).2 (h.took j r htook)⟩
      · exact ⟨Or.inl hinserted, hnone⟩
    · rintro ⟨hinserted | hmem, hnone⟩
      · exact Or.inr ⟨hinserted, hnone⟩
      · exact Or.inl hmem
  · intro j r hr
    exact (hin r).mpr (Or.inl (h.took j r ((htaken j r).mp hr)))
  · have hnone : (records.map QueueEvent.inserted).filterMap QueueEvent.taken? = [] := by
      rw [List.filterMap_map]
      exact List.filterMap_none records
    change ((w.log ++ records.map QueueEvent.inserted).filterMap _).Nodup
    rw [List.filterMap_append, hnone, List.append_nil]
    exact h.once
  · intro j count key acc hj
    have hheld : Held w.log key := by
      have hclients := Function.update_apply w.clients i (.idle : QueueClient α) j
      change Function.update w.clients i .idle j = _ at hj
      rw [hclients] at hj
      split at hj
      · cases hj
      · exact h.held j count key acc hj
    obtain ⟨r, hkey, hr⟩ := hheld.exists_record
    refine ⟨⟨r, hkey, List.mem_append_left _ hr⟩, ?_⟩
    -- A record with a key that has been told is not a new one.
    intro other r' hother hless hpair
    have hreserved : .reserved other ∈ w.log := by
      rcases (hin other).mp (pair_mem hpair).2 with hinserted | hmem
      · exact hbooked.inserted other hinserted
      · exact (hrecords other hmem).1
    have hsame := hbooked.unique other r hreserved (hbooked.inserted r hr) (hother.trans hkey.symm)
    rw [hsame] at hpair
    obtain ⟨k, htook⟩ := hheld.taken r r' hkey hless (pair_of_append hpair (hold hr))
    exact ⟨k, List.mem_append_left _ htook⟩
  · intro j r r' hr hless hpair
    have hr := (htaken j r).mp hr
    obtain ⟨k, hbefore⟩ := h.fifo j r r' hr hless (pair_of_append hpair (hold (h.took j r hr)))
    exact ⟨k, List.sublist_append_of_sublist_left hbefore⟩

theorem QueueWorld.Fair.take (h : w.Fair) {count : ℕ} {item : α} {acc : List α}
    (htold : w.clients i = .holding (count + 1) (some key) acc)
    (hfound : w.queue.table.find? key = some item) : (w.take i count (key, item) acc).Fair := by
  have hmem := (h.table _).mp (OrderedSet.find?_eq_some.mp hfound)
  have hin : ∀ r, .inserted r ∈ (w.take i count (key, item) acc).log ↔ .inserted r ∈ w.log := by
    intro r
    change _ ∈ w.log ++ [_] ↔ _
    simp
  have htaken : ∀ j r, .took j r ∈ (w.take i count (key, item) acc).log ↔
      .took j r ∈ w.log ∨ j = i ∧ r = (key, item) := by
    intro j r
    change _ ∈ w.log ++ [_] ↔ _
    simp
  have hquiet : ∀ r, QueueEvent.inserted r ∉ [QueueEvent.took i (key, item)] := by
    intro r hr
    cases List.mem_singleton.mp hr
  constructor
  · intro r
    simp only [hin, htaken]
    change r ∈ (w.queue.table.erase key).entries ↔ _
    rw [OrderedSet.mem_erase, h.table]
    constructor
    · rintro ⟨⟨hinserted, hnone⟩, hkey⟩
      refine ⟨hinserted, fun j htook => ?_⟩
      rcases htook with htook | ⟨-, heq⟩
      · exact hnone j htook
      · exact hkey (heq ▸ rfl)
    · rintro ⟨hinserted, hnone⟩
      have hentry : r ∈ w.queue.table.entries :=
        (h.table r).mpr ⟨hinserted, fun j htook => hnone j (Or.inl htook)⟩
      refine ⟨(h.table r).mp hentry, fun hkey => ?_⟩
      have hvalue : w.queue.table.find? key = some r.2 :=
        OrderedSet.find?_eq_some.mpr (hkey ▸ hentry)
      have hitem := Option.some.inj (hvalue.symm.trans hfound)
      exact hnone i (Or.inr ⟨rfl, Prod.ext hkey hitem⟩)
  · intro j r hr
    rw [hin]
    rcases (htaken j r).mp hr with hold | ⟨-, heq⟩
    · exact h.took j r hold
    · rw [heq]
      exact hmem.1
  · change ((w.log ++ [_]).filterMap QueueEvent.taken?).Nodup
    rw [List.filterMap_append]
    refine List.Nodup.append h.once (List.nodup_singleton _) ?_
    intro r hold hnew
    obtain ⟨event, hevent, heq⟩ := List.mem_filterMap.mp hold
    have hr : r = (key, item) := List.mem_singleton.mp hnew
    cases event with
    | reserved other => cases heq
    | inserted other => cases heq
    | took j other =>
      cases heq
      rw [hr] at hevent
      exact hmem.2 j hevent
  · intro j other key' acc' hj
    refine Held.quiet ?_ hquiet
    change Function.update w.clients i _ j = _ at hj
    rw [Function.update_apply] at hj
    split at hj
    · cases hj
    · exact h.held j other key' acc' hj
  · intro j r r' hr hless hpair
    have hpair := pair_of_append hpair (hquiet r)
    rcases (htaken j r).mp hr with hold | ⟨hji, heq⟩
    · obtain ⟨k, hbefore⟩ := h.fifo j r r' hold hless hpair
      exact ⟨k, List.sublist_append_of_sublist_left hbefore⟩
    · rw [heq] at hless hpair
      rw [hji, heq]
      obtain ⟨k, htook⟩ := (h.held i _ key acc htold).taken (key, item) r' rfl hless hpair
      exact ⟨k, pair_append htook List.mem_cons_self⟩

end Fairness

section Accounts

variable {α : Type} {w w' : QueueWorld α} {i : ℕ}

/-- What a process has taken in the call that it is in, the last item first. -/
def QueueClient.hand : QueueClient α → List α
  | .looking _ acc => acc
  | .holding _ _ acc => acc
  | _ => []

/-- The item that this process takes. -/
def QueueEvent.item? (i : ℕ) : QueueEvent α → Option α
  | .took j record => if j = i then some record.2 else none
  | _ => none

/-- Every process has returned what it has taken, or still has it. -/
def QueueWorld.Settled (w : QueueWorld α) : Prop :=
  ∀ i, w.log.filterMap (QueueEvent.item? i) = (w.returned i).flatten ++ (w.clients i).hand.reverse

/-- Nothing is taken and nothing returned. -/
theorem QueueWorld.Settled.quiet (h : w.Settled) {client : QueueClient α}
    {events : List (QueueEvent α)} (hhand : client.hand = (w.clients i).hand)
    (hevents : ∀ j, events.filterMap (QueueEvent.item? j) = [])
    (hclients : w'.clients = (w.move i client events).clients)
    (hlog : w'.log = w.log ++ events) (hreturned : w'.returned = w.returned) : w'.Settled := by
  intro j
  rw [hlog, List.filterMap_append, hevents, List.append_nil, hreturned, hclients, move_clients]
  split
  · rename_i hj
    rw [hhand, ← hj]
    exact h j
  · exact h j

theorem QueueWorld.Settled.take (h : w.Settled) {count : ℕ} {record : ℤ × α} {acc : List α}
    (hacc : (w.clients i).hand = acc) : (w.take i count record acc).Settled := by
  intro j
  change (w.log ++ [QueueEvent.took i record]).filterMap _ =
    (w.returned j).flatten ++ (Function.update w.clients i _ j).hand.reverse
  rw [List.filterMap_append, h j, Function.update_apply, List.append_assoc]
  by_cases hj : j = i
  · have hitem : [QueueEvent.took i record].filterMap (QueueEvent.item? j) = [record.2] := by
      simp [QueueEvent.item?, hj]
    rw [hitem, if_pos hj, hj, hacc]
    change _ = _ ++ (record.2 :: acc).reverse
    rw [List.reverse_cons]
  · have hitem : [QueueEvent.took i record].filterMap (QueueEvent.item? j) = [] := by
      simp [QueueEvent.item?, Ne.symm hj]
    rw [hitem, if_neg hj, List.append_nil]

theorem QueueWorld.Settled.finish (h : w.Settled) {acc : List α}
    (hacc : (w.clients i).hand = acc) : (w.finish i acc).Settled := by
  intro j
  change (w.log ++ []).filterMap _ = (Function.update w.returned i _ j).flatten ++
    (Function.update w.clients i _ j).hand.reverse
  rw [List.append_nil, h j, Function.update_apply, Function.update_apply]
  by_cases hj : j = i
  · rw [if_pos hj, if_pos hj, hj, hacc, List.flatten_append]
    simp [QueueClient.hand]
  · rw [if_neg hj, if_neg hj]

end Accounts

section Runs

variable {α : Type} {w w' : QueueWorld α}

theorem QueueStep.booked (hstep : QueueStep w w') (h : w.Booked) : w'.Booked := by
  cases hstep with
  | reserve i items idle room => exact h.reserve idle room
  | insert i records pending => exact h.insert pending
  | call i count idle =>
    exact h.quiet (by simp) (by simp [idle]) (by simp) rfl rfl rfl
  | look i count acc asking =>
    exact h.quiet (by simp) (by simp [asking]) (by simp) rfl rfl rfl
  | take i count key item acc told found =>
    exact h.quiet (by simp) (by simp [told]) (by simp) rfl rfl rfl
  | stale i count key acc told gone =>
    exact h.quiet (by simp) (by simp [told]) (by simp) rfl rfl rfl
  | finish i count key acc told enough =>
    exact h.quiet (by simp) (by simp [told]) (by simp) rfl rfl rfl

/-- Only who is told a key holds it. -/
theorem holding_of_update {i j count : ℕ} {client : QueueClient α} {key : ℤ} {acc : List α}
    (h : Function.update w.clients i client j = .holding count (some key) acc)
    (hclient : ∀ count acc, client ≠ .holding count (some key) acc) :
    w.clients j = .holding count (some key) acc := by
  rw [Function.update_apply] at h
  split at h
  · exact absurd h (hclient count acc)
  · exact h

theorem QueueStep.fair (hstep : QueueStep w w') (hbooked : w.Booked) (h : w.Fair) : w'.Fair := by
  cases hstep with
  | reserve i items idle room =>
    refine h.quiet rfl (by simp) (by simp) rfl fun j count key acc hj => ?_
    exact h.held j count key acc (holding_of_update hj (by simp))
  | insert i records pending => exact h.insert hbooked pending
  | call i count idle =>
    refine h.quiet rfl (by simp) (by simp) rfl fun j count key acc hj => ?_
    exact h.held j count key acc (holding_of_update hj (by simp))
  | look i count acc asking =>
    refine h.quiet rfl (by simp) (by simp) rfl fun j count' key acc' hj => ?_
    rw [move_clients] at hj
    split at hj
    · injection hj with _ hfirst
      exact h.first hfirst
    · exact h.held j count' key acc' hj
  | take i count key item acc told found => exact h.take told found
  | stale i count key acc told gone =>
    refine h.quiet rfl (by simp) (by simp) rfl fun j count key acc hj => ?_
    exact h.held j count key acc (holding_of_update hj (by simp))
  | finish i count key acc told enough =>
    refine h.quiet rfl (by simp) (by simp) rfl fun j count key acc hj => ?_
    exact h.held j count key acc (holding_of_update hj (by simp))

theorem QueueStep.settled (hstep : QueueStep w w') (h : w.Settled) : w'.Settled := by
  have hsilent : ∀ {records : List (ℤ × α)} {event : ℤ × α → QueueEvent α} {j : ℕ},
      (∀ r, (event r).item? j = none) → (records.map event).filterMap (QueueEvent.item? j) = [] := by
    intro records event j hnone
    rw [List.filterMap_map, List.filterMap_eq_nil_iff]
    exact fun r _ => hnone r
  cases hstep with
  | reserve i items idle room =>
    refine h.quiet ?_ (fun j => hsilent fun r => rfl) rfl rfl rfl
    rw [idle]
    rfl
  | insert i records pending =>
    refine h.quiet ?_ (fun j => hsilent fun r => rfl) rfl rfl rfl
    rw [pending]
    rfl
  | call i count idle =>
    refine h.quiet ?_ (fun j => rfl) rfl rfl rfl
    rw [idle]
    rfl
  | look i count acc asking =>
    refine h.quiet ?_ (fun j => rfl) rfl rfl rfl
    rw [asking]
    rfl
  | take i count key item acc told found => exact h.take (by rw [told]; rfl)
  | stale i count key acc told gone =>
    refine h.quiet ?_ (fun j => rfl) rfl rfl rfl
    rw [told]
    rfl
  | finish i count key acc told enough => exact h.finish (by rw [told]; rfl)

theorem QueueReachable.invariants (h : QueueReachable w) : w.Booked ∧ w.Fair ∧ w.Settled := by
  induction h with
  | start =>
    refine ⟨?_, ?_, fun i => rfl⟩
    · constructor <;> simp [QueueWorld.start]
    · constructor <;> simp [QueueWorld.start, Queue.new, OrderedSet.empty]
  | step hreach hstep ih =>
    obtain ⟨hbooked, hfair, hsettled⟩ := ih
    exact ⟨hstep.booked hbooked, hstep.fair hbooked hfair, hstep.settled hsettled⟩

end Runs

section Sharing

variable {α : Type}

/-- Where an item is, once a process has reserved a key for it. -/
inductive QueueWorld.Place (w : QueueWorld α) (record : ℤ × α) : Prop
  | carried (i : ℕ) (records : List (ℤ × α)) (pending : w.clients i = .inserting records)
      (mem : record ∈ records)
  | queued (mem : record ∈ w.queue.table.entries)
  | taken (i : ℕ) (took : .took i record ∈ w.log)

/-- In every order of the steps of any processes: no item is lost, none is taken twice or made
up, every process returns what it takes, and an item leaves behind those that were inserted
before its key was reserved, or before it was inserted and under a smaller key. -/
theorem queue_shared (w : QueueWorld α) (h : QueueReachable w) :
    (∀ r, .reserved r ∈ w.log → w.Place r) ∧
      (w.log.filterMap QueueEvent.taken?).Nodup ∧
      (∀ i r, .took i r ∈ w.log → .reserved r ∈ w.log ∧ r ∉ w.queue.table.entries) ∧
      (∀ i, w.log.filterMap (QueueEvent.item? i) =
        (w.returned i).flatten ++ (w.clients i).hand.reverse) ∧
      ∀ i r r', .took i r ∈ w.log →
        [.inserted r', .reserved r].Sublist w.log ∨
          r'.1 < r.1 ∧ [.inserted r', .inserted r].Sublist w.log →
        ∃ j, [.took j r', .took i r].Sublist w.log := by
  obtain ⟨hbooked, hfair, hsettled⟩ := h.invariants
  refine ⟨?_, hfair.once, ?_, hsettled, ?_⟩
  · intro r hr
    rcases hbooked.kept r hr with hin | ⟨i, records, hi, hmem⟩
    · by_cases htaken : ∃ i, .took i r ∈ w.log
      · obtain ⟨i, htook⟩ := htaken
        exact .taken i htook
      · exact .queued ((hfair.table r).mpr ⟨hin, fun i htook => htaken ⟨i, htook⟩⟩)
    · exact .carried i records hi hmem
  · intro i r hr
    refine ⟨hbooked.inserted r (hfair.took i r hr), fun hmem => ?_⟩
    exact ((hfair.table r).mp hmem).2 i hr
  · rintro i r r' hr (hbefore | ⟨hless, hbefore⟩)
    · have hpair := hbooked.behind r r' hbefore (hfair.took i r hr)
      exact hfair.fifo i r r' hr (hbooked.order r r' hbefore) hpair
    · exact hfair.fifo i r r' hr hless hbefore

/-- Two processes are told one key: one takes the entry and the other finds it gone. -/
def raced : QueueWorld ℕ :=
  let queued := (QueueWorld.start.reserve 0 [7]).insert 0 [(1, 7)]
  let called := (queued.move 1 (.looking 1 []) []).move 2 (.looking 1 []) []
  let told := (called.move 1 (.holding 1 (some 1) []) []).move 2 (.holding 1 (some 1) []) []
  (told.take 1 0 (1, 7) []).move 2 (.looking 1 []) []

theorem reachable_raced : QueueReachable raced :=
  .step (.step (.step (.step (.step (.step (.step (.step .start
    (.reserve _ 0 [7] rfl (by decide))) (.insert _ 0 _ rfl)) (.call _ 1 1 rfl)) (.call _ 2 1 rfl))
    (.look _ 1 1 [] rfl)) (.look _ 2 1 [] rfl)) (.take _ 1 0 1 7 [] rfl rfl))
    (.stale _ 2 0 1 [] rfl rfl)

theorem queue_shared_raced :
    raced.Place (1, 7) ∧ (1, 7) ∉ raced.queue.table.entries ∧
      [7] = (raced.returned 1).flatten ++ (raced.clients 1).hand.reverse := by
  have hlog : raced.log = [.reserved (1, 7), .inserted (1, 7), .took 1 (1, 7)] := rfl
  obtain ⟨hplace, -, htook, hsettled, -⟩ := queue_shared raced reachable_raced
  rw [hlog] at hplace htook
  exact ⟨hplace (1, 7) (by simp), (htook 1 (1, 7) (by simp)).2, hsettled 1⟩

end Sharing

end Sower.Nix
