import Sower.Vm.GuestService

/-!
# Histories and descendants

The guest cannot see its descendants. What it knows of them is in the history of
what it has done and what it was told. Where orphans are adopted before anything is
spawned, the answer that there is no child left is a certificate: no descendant is
left, and none comes while nothing is spawned.
-/

namespace Sower.Vm.GuestLoop

open Protocol

section Histories

/-- The status is one the system has reported of the root process. -/
def Reported (history : List Happening) (status : ExitStatus) : Prop :=
  ∃ target root, Happening.waited target (.child root status) ∈ history ∧
    (target = .root ∨ root = true)

/-- No process was spawned since the system said that there was no child left. -/
def Certified (history : List Happening) : Prop :=
  ∃ earlier later, history = earlier ++ later ∧ Happening.spawned ∉ later ∧
    (earlier = [] ∨ ∃ front, earlier = front ++ [.waited .any .noChildren])

/-- Processes are spawned by a guest that adopts orphans. -/
def SpawnsAdopted : Bool → List Happening → Prop
  | _, [] => True
  | _, .adopting :: history => SpawnsAdopted true history
  | adopts, .spawned :: history => adopts = true ∧ SpawnsAdopted adopts history
  | adopts, .waited _ _ :: history => SpawnsAdopted adopts history
  | adopts, .cleaned _ :: history => SpawnsAdopted adopts history

variable {history events : List Happening} {status : ExitStatus} {adopts : Bool}

theorem Reported.append (h : Reported history status) (events : List Happening) :
    Reported (history ++ events) status := by
  obtain ⟨target, root, hmem, hroot⟩ := h
  exact ⟨target, root, List.mem_append_left _ hmem, hroot⟩

theorem Reported.append_front (h : Reported history status) (events : List Happening) :
    Reported (events ++ history) status := by
  obtain ⟨target, root, hmem, hroot⟩ := h
  exact ⟨target, root, List.mem_append_right _ hmem, hroot⟩

theorem certified_nil : Certified [] := ⟨[], [], rfl, List.not_mem_nil, Or.inl rfl⟩

/-- Whatever does not spawn may follow. -/
theorem Certified.append (h : Certified history) (hevents : Happening.spawned ∉ events) :
    Certified (history ++ events) := by
  obtain ⟨earlier, later, hhistory, hlater, hearlier⟩ := h
  refine ⟨earlier, later ++ events, ?_, ?_, hearlier⟩
  · rw [hhistory, List.append_assoc]
  · intro hmem
    rcases List.mem_append.mp hmem with hmem | hmem
    · exact hlater hmem
    · exact hevents hmem

/-- The answer that there is no child left is a certificate of its own. -/
theorem certified_of_waited (before : List Happening)
    (hwaited : Happening.waited .any .noChildren ∈ events)
    (hevents : Happening.spawned ∉ events) : Certified (before ++ events) := by
  obtain ⟨front, back, rfl⟩ := List.append_of_mem hwaited
  refine ⟨before ++ front ++ [.waited .any .noChildren], back, ?_, ?_, Or.inr ⟨_, rfl⟩⟩
  · simp
  · intro hmem
    exact hevents (List.mem_append_right _ (List.mem_cons_of_mem _ hmem))

theorem spawnsAdopted_true (history : List Happening) : SpawnsAdopted true history := by
  induction history with
  | nil => trivial
  | cons happening history ih =>
    cases happening with
    | adopting => exact ih
    | spawned => exact ⟨rfl, ih⟩
    | waited target result => exact ih
    | cleaned succeeded => exact ih

/-- Once the guest adopts orphans it may spawn processes. -/
theorem SpawnsAdopted.adopting (h : SpawnsAdopted adopts history) (events : List Happening) :
    SpawnsAdopted adopts (history ++ .adopting :: events) := by
  induction history generalizing adopts with
  | nil => exact spawnsAdopted_true events
  | cons happening history ih =>
    cases happening with
    | adopting => exact ih h
    | spawned => exact ⟨h.1, ih h.2⟩
    | waited target result => exact ih h
    | cleaned succeeded => exact ih h

theorem SpawnsAdopted.front (h : SpawnsAdopted adopts (history ++ events)) :
    SpawnsAdopted adopts history := by
  induction history generalizing adopts with
  | nil => trivial
  | cons happening history ih =>
    cases happening with
    | adopting => exact ih h
    | spawned => exact ⟨h.1, ih h.2⟩
    | waited target result => exact ih h
    | cleaned succeeded => exact ih h

end Histories

section Descendants

/-- Only a guest that adopts orphans has descendants, and their table is well-formed. -/
structure Kernel.Sane (k : Kernel) : Prop where
  wellFormed : k.descendants.WellFormed
  adopts : k.adopts = false → k.descendants = []

variable {k k' : Kernel} {history events : List Happening} {happening : Happening}

theorem Kernel.Sane.happens (h : k.Sane) (hcall : Happens k happening k')
    (hspawned : happening = .spawned → k.adopts = true) : k'.Sane := by
  cases hcall with
  | adopting => exact ⟨h.wellFormed, fun hfalse => nomatch hfalse⟩
  | @spawned serial fresh =>
    refine ⟨ProcessTree.wellFormed_spawn h.wellFormed serial, ?_⟩
    intro hfalse
    rw [hspawned rfl] at hfalse
    cases hfalse
  | @child target z status member owned ended wanted =>
    refine ⟨ProcessTree.wellFormed_reaped h.wellFormed z.serial, ?_⟩
    intro hfalse
    rw [h.adopts hfalse] at member
    cases member
  | none target => exact h
  | noChildren childless => exact h
  | failed target => exact h
  | cleaned succeeded => exact h

theorem Kernel.Sane.descend (h : k.Sane) {descendants : ProcessTree.Table ExitStatus}
    (hstep : ProcessTree.Step k.adopts k.descendants descendants) :
    Kernel.Sane { k with descendants := descendants } := by
  cases hadopts : k.adopts with
  | true =>
    rw [hadopts] at hstep
    refine ⟨hstep.wellFormed h.wellFormed, ?_⟩
    intro hfalse
    cases hfalse
  | false =>
    rw [h.adopts hadopts] at hstep
    have hnil : descendants = [] := hstep.of_nil
    rw [hnil]
    exact ⟨ProcessTree.wellFormed_nil, fun _ => rfl⟩

/-- What the guest knows of the flag. -/
theorem Happens.adopts_spawned (hcall : Happens k happening k')
    (h : SpawnsAdopted k.adopts (happening :: history)) :
    (happening = .spawned → k.adopts = true) ∧ SpawnsAdopted k'.adopts history := by
  cases hcall with
  | adopting => exact ⟨(fun heq => nomatch heq), h⟩
  | spawned fresh => exact ⟨fun _ => h.1, h.2⟩
  | child member owned ended wanted => exact ⟨(fun heq => nomatch heq), h⟩
  | none target => exact ⟨(fun heq => nomatch heq), h⟩
  | noChildren childless => exact ⟨(fun heq => nomatch heq), h⟩
  | failed target => exact ⟨(fun heq => nomatch heq), h⟩
  | cleaned succeeded => exact ⟨(fun heq => nomatch heq), h⟩

theorem Follows.sane (hrun : Follows k history k') (h : k.Sane)
    (hspawns : SpawnsAdopted k.adopts history) : k'.Sane := by
  induction hrun with
  | done k => exact h
  | descend step rest ih => exact ih (h.descend step) hspawns
  | happen call rest ih =>
    obtain ⟨hspawned, hlater⟩ := call.adopts_spawned hspawns
    exact ih (h.happens call hspawned) hlater

/-- A history is followed up to any point of it. -/
theorem Follows.split (hrun : Follows k (history ++ events) k') :
    ∃ mid, Follows k history mid ∧ Follows mid events k' := by
  generalize hwhole : history ++ events = whole at hrun
  induction hrun generalizing history with
  | done k =>
    obtain ⟨rfl, rfl⟩ := List.append_eq_nil_iff.mp hwhole
    exact ⟨k, Follows.done k, Follows.done k⟩
  | descend step rest ih =>
    obtain ⟨mid, hbefore, hafter⟩ := ih hwhole
    exact ⟨mid, Follows.descend step hbefore, hafter⟩
  | @happen k k₁ k₂ happening later call rest ih =>
    cases history with
    | nil =>
      have hevents : events = happening :: later := hwhole
      rw [hevents]
      exact ⟨k, Follows.done k, Follows.happen call rest⟩
    | cons first history =>
      obtain ⟨hfirst, hlater⟩ := List.cons.inj hwhole
      obtain ⟨mid, hbefore, hafter⟩ := ih hlater
      rw [hfirst]
      exact ⟨mid, Follows.happen call hbefore, hafter⟩

/-- Without spawning there are no new descendants. -/
theorem Follows.of_nil (hrun : Follows k history k') (hnil : k.descendants = [])
    (hspawned : Happening.spawned ∉ history) : k'.descendants = [] := by
  induction hrun with
  | done k => exact hnil
  | descend step rest ih =>
    rw [hnil] at step
    exact ih step.of_nil hspawned
  | @happen k k₁ k₂ happening later call rest ih =>
    have hlater : Happening.spawned ∉ later := fun hmem => hspawned (List.mem_cons_of_mem _ hmem)
    have hkept : k₁.descendants = [] := by
      cases call with
      | adopting => exact hnil
      | spawned fresh => exact absurd List.mem_cons_self hspawned
      | child member owned ended wanted =>
        rw [hnil] at member
        cases member
      | none target => exact hnil
      | noChildren childless => exact hnil
      | failed target => exact hnil
      | cleaned succeeded => exact hnil
    exact ih hkept hlater

/-- The certificate of the system: no descendant is left. -/
theorem Follows.noChildren (hrun : Follows k [.waited .any .noChildren] k') (h : k.Sane) :
    k'.descendants = [] := by
  generalize hhistory : [Happening.waited .any .noChildren] = history at hrun
  induction hrun with
  | done k => cases hhistory
  | descend step rest ih => exact ih (h.descend step) hhistory
  | happen call rest ih =>
    obtain ⟨rfl, rfl⟩ := List.cons.inj hhistory
    cases call with
    | noChildren childless =>
      have hnil := ProcessTree.eq_nil_of_childless h.wellFormed (childless rfl)
      exact rest.of_nil hnil List.not_mem_nil

/-- Behind a certificate there are no descendants, whatever these have done. -/
theorem Certified.descendants (h : Certified history) (hspawns : SpawnsAdopted false history)
    (hrun : Follows {} history k) : k.descendants = [] := by
  have hsane : Kernel.Sane {} := ⟨ProcessTree.wellFormed_nil, fun _ => rfl⟩
  obtain ⟨earlier, later, rfl, hlater, hearlier⟩ := h
  obtain ⟨mid, hbefore, hafter⟩ := hrun.split
  refine hafter.of_nil ?_ hlater
  rcases hearlier with rfl | ⟨front, rfl⟩
  · exact hbefore.of_nil rfl List.not_mem_nil
  · obtain ⟨inner, hfront, hlast⟩ := hbefore.split
    exact hlast.noChildren (hfront.sane hsane hspawns.front.front)

end Descendants

end Sower.Vm.GuestLoop
