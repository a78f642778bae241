import Sower.Vm.Answers

/-!
# One answer, and one result

A call of the ledger is followed over all the messages that come after it. A
shutdown that is answered with success has certified all that was ever accepted;
those who wait are answered once; and the first completion of a virtual machine
is the one that everybody is told.
-/

namespace Sower.Vm

open Durable

variable {l l' l₁ : Ledger} {id : ℕ} {entry entry' : Entry} {sight : Sight} {c caller : Caller}

section Settling

/-- In a shutdown nobody waits for its end when nothing is active. -/
def Ledger.Settled (l : Ledger) : Prop :=
  l.mode = .shutdown → l.shutdownWaiters ≠ [] → ∃ id, l.Active id

theorem settled_settle (sight : Sight) (l : Ledger) : (settle sight l).state.Settled := by
  unfold settle
  split
  · rename_i hbusy
    exact fun _ _ => busy_iff.mp hbusy
  · split
    · exact fun _ hwaiters => absurd rfl hwaiters
    · rename_i hmode
      split
      · exact fun hshutdown => by cases hshutdown
      · exact fun hshutdown => absurd hshutdown hmode

/-- As much is active, and nobody else waits. -/
theorem Ledger.Settled.congr (h : l.Settled) (hmode : l'.mode = l.mode)
    (hwaiters : l'.shutdownWaiters = l.shutdownWaiters)
    (hactive : ∀ id, l.Active id → l'.Active id) : l'.Settled := by
  intro hshutdown hne
  rw [hmode] at hshutdown
  rw [hwaiters] at hne
  obtain ⟨id, hid⟩ := h hshutdown hne
  exact ⟨id, hactive id hid⟩

theorem active_put (hlookup : l.entries.lookup id = some entry)
    (hactive : entry'.active = entry.active) (other : ℕ) (h : l.Active other) :
    (l.put id entry').Active other := by
  obtain ⟨found, hfound, hstill⟩ := h
  by_cases hother : other = id
  · subst hother
    rw [hlookup] at hfound
    cases hfound
    exact ⟨entry', AList.lookup_insert _, hactive.trans hstill⟩
  · exact ⟨found, (AList.lookup_insert_ne hother).trans hfound, hstill⟩

theorem Ledger.Settled.put (h : l.Settled) (hlookup : l.entries.lookup id = some entry)
    (hactive : entry'.active = entry.active) : (l.put id entry').Settled :=
  h.congr rfl rfl (active_put hlookup hactive)

theorem settled_start {options : StartOptions} {child : Except Term Pid} (h : l.Settled) :
    (start caller options child l).state.Settled := by
  unfold start
  split
  · exact h
  · rename_i hnone
    have hopen := (refusal_none hnone).1
    cases child with
    | ok execution =>
      intro hshutdown
      have hsame : l.mode = .shutdown := hshutdown
      rw [hopen] at hsame
      cases hsame
    | error reason =>
      intro hshutdown
      have hsame : l.mode = .shutdown := hshutdown
      rw [hopen] at hsame
      cases hsame

theorem settled_complete {guard : Option Pid} {result : Result} {cleanup : Cleanup}
    (h : l.Settled) : (complete sight id guard result cleanup l).state.Settled := by
  unfold complete
  split
  · exact h
  · split
    · exact settled_settle sight _
    · exact h

theorem settled_handleCall (request : Request) (h : l.Settled) :
    (handleCall sight caller request l).state.Settled := by
  cases request with
  | attachManager pid => exact settled_settle sight _
  | attachSupervisor pid => exact settled_settle sight _
  | start options child => exact settled_start h
  | list => exact h
  | status id =>
    change (status caller id l).state.Settled
    unfold status
    split <;> exact h
  | stop id =>
    change (stop caller id l).state.Settled
    unfold stop
    split
    · rename_i entry hlookup
      split
      · exact h.put hlookup rfl
      · exact h
    · exact h
  | cancel id =>
    change (cancel caller id l).state.Settled
    unfold cancel
    split <;> exact h
  | await id =>
    change (await caller id l).state.Settled
    unfold await
    split
    · rename_i entry hlookup
      split
      · exact h.put hlookup rfl
      · exact h
    · exact h
  | guardStarted id guard =>
    change (guardStarted caller id guard l).state.Settled
    unfold guardStarted
    split
    · rename_i entry hlookup
      exact h.put hlookup rfl
    · exact h
  | finished id guard result cleanup => exact settled_complete h
  | shutdown => exact settled_settle sight _

/-- Every turn that ends what is active answers those who wait for the shutdown. -/
theorem settled_handle (message : Message) (h : l.Settled) :
    (handle sight message l).state.Settled := by
  cases message with
  | call caller request => exact settled_handleCall request h
  | statusChanged id guard changes =>
    change (statusChanged id guard changes l).state.Settled
    unfold statusChanged
    split
    · rename_i entry hlookup
      split
      · rename_i hguard
        have hactive : entry.active = true := (Bool.and_eq_true _ _ ▸ hguard).2
        exact h.put hlookup (like_foldl_apply changes hactive).active
      · exact h
    · exact h
  | down ref reason => exact settled_settle sight _
  | shutdownDeadline => exact fun _ hwaiters => absurd rfl hwaiters

/-- A turn that settles in the end. -/
theorem settled_andThen {t : LedgerTurn} {f : Ledger → LedgerTurn}
    (hf : ∀ l, (f l).state.Settled) : (t.andThen f).state.Settled := hf _

theorem settled_init {options : LedgerOptions} {saved : Option Ledger} {t : LedgerTurn}
    (h : init options sight saved = some t) : t.state.Settled := by
  unfold init at h
  split at h
  · cases h
    exact settled_andThen fun _ => settled_andThen fun _ => settled_andThen fun _ =>
      settled_andThen fun _ => settled_andThen fun _ => settled_andThen fun l =>
        settled_settle sight l
  · cases h

theorem settled_handleAll (inputs : List (Sight × Message)) (h : l.Settled) :
    (handleAll inputs l).state.Settled := by
  induction inputs generalizing l with
  | nil => exact h
  | cons input rest ih => exact ih (settled_handle input.2 h)

theorem settled_run {w : World Ledger Effect} (h : Runs .initial w) :
    ∀ l, w.memory = some l → l.Settled := by
  refine h.serves (fun hv => sound_run hv) (fun l hl => by cases hl)
    (fun _ _ hboot => settled_init hboot) fun input l _ hsettled => ?_
  exact settled_handle input.2 hsettled

end Settling

section Accepted

variable {options : StartOptions} {w : World Ledger Effect}

/-- The virtual machines whose start some effects tell to be accepted. -/
def acceptedIn (effects : List Effect) : List ℕ := effects.filterMap Effect.accepted

theorem acceptedIn_append (es es' : List Effect) :
    acceptedIn (es ++ es') = acceptedIn es ++ acceptedIn es' :=
  List.filterMap_append

theorem acceptedIn_mild {effects : List Effect} (h : ∀ e ∈ effects, e.accepted = none) :
    acceptedIn effects = [] :=
  List.filterMap_eq_nil_iff.mpr h

/-- Only a start that is not refused tells that one is accepted. -/
theorem mild_handle (hl : l.Sound) (message : Message) (hnot : ¬ message.Admits l) :
    ∀ e ∈ (handle sight message l).effects, e.accepted = none := by
  cases message with
  | call caller request =>
    have hother : ¬ (Message.call caller request).From (caller + 1) :=
      fun hsame => absurd hsame (Nat.succ_ne_self caller).symm
    exact (fair_handle hl _ hother hnot).mild
  | statusChanged id guard changes =>
    exact (@fair_handle l sight 0 hl (.statusChanged id guard changes) (fun h => h) hnot).mild
  | down ref reason => exact (@fair_handle l sight 0 hl (.down ref reason) (fun h => h) hnot).mild
  | shutdownDeadline =>
    exact (@fair_handle l sight 0 hl .shutdownDeadline (fun h => h) hnot).mild

theorem fair_recoverEntry : FairPart c (recoverEntry sight id) := by
  intro l hl
  unfold recoverEntry
  split
  · exact fair_still hl
  · rename_i entry hlookup
    refine Fair.andThen ?_ fun l₁ hl₁ => (fair_monitor _ _ l₁ hl₁).andThen fair_certificate
    exact fair_put hl hlookup ((like_located sight id entry).trans (like_recoverStatus _ _ _))
      (congrArg (List.count c) (waiters_recoverStatus _ _ _)) (fair_monitor _ _)

theorem fair_recoverEntries (ids : List ℕ) : FairPart c (recoverEntries sight ids) := by
  induction ids with
  | nil => exact fun l hl => fair_still hl
  | cons id rest ih => exact fun l hl => (fair_recoverEntry l hl).andThen ih

/-- Booting accepts nothing. -/
theorem mild_init {ledgerOptions : LedgerOptions} {saved : Option Ledger} {t : LedgerTurn}
    (h : init ledgerOptions sight saved = some t) (hl : (ledgerOptions.restore saved).Sound) :
    ∀ e ∈ t.effects, e.accepted = none := by
  unfold init at h
  split at h
  · cases h
    refine Fair.mild (c := 0) ((fair_monitor _ _ _ hl).andThen fun l₁ hl₁ =>
      (fair_monitor _ _ l₁ hl₁).andThen fun l₂ hl₂ => (fair_monitor _ _ l₂ hl₂).andThen
      fun l₃ hl₃ => (fair_evict l₃ hl₃).andThen fun l₄ hl₄ => ?_)
    exact (fair_recoverEntries _ l₄ hl₄).andThen fun l₅ hl₅ => (fair_drain l₅ hl₅).andThen
      fun l₆ hl₆ => (fair_settle l₆ hl₆).andThen fair_persist
  · cases h

theorem mild_append {es es' : List Effect} (h : ∀ e ∈ es, e.accepted = none)
    (h' : ∀ e ∈ es', e.accepted = none) : ∀ e ∈ es ++ es', e.accepted = none :=
  fun e he => (List.mem_append.mp he).elim (h e) (h' e)

theorem mild_persist (l : Ledger) : ∀ e ∈ (persist l).effects, e.accepted = none := by
  intro e he
  rw [List.mem_singleton.mp he]
  rfl

theorem mild_monitor (pid : Pid) (kind : Kind) (l : Ledger) :
    ∀ e ∈ (monitor (some pid) kind l).effects, e.accepted = none := by
  intro e he
  rcases List.mem_append.mp he with he | he
  · obtain ⟨m, -, rfl⟩ := List.mem_map.mp he
    rfl
  · rw [List.mem_singleton.mp he]
    rfl

theorem mild_admitStart (options : StartOptions) (l : Ledger) :
    ∀ e ∈ (admitStart options l).effects, e.accepted = none := by
  refine mild_append (mild_persist _) fun e he => ?_
  rw [List.mem_singleton.mp he]
  rfl

/-- A start that is not refused tells so last, and then the ledger has its entry. -/
theorem accepted_started (child : Except Term Pid) :
    (∀ e ∈ ((admitStart options l).andThen
      (started caller options l.history.ids child)).effects, e.accepted = none) ∨
    ∃ first id, ((admitStart options l).andThen
        (started caller options l.history.ids child)).effects =
          first ++ [.reply caller (.started id)] ∧
      (∀ e ∈ first, e.accepted = none) ∧
      id ∈ ((admitStart options l).andThen
        (started caller options l.history.ids child)).state.entries := by
  have hadmit := mild_admitStart options l
  cases child with
  | error reason =>
    refine Or.inl (mild_append hadmit (mild_append (mild_persist _) fun e he => ?_))
    rw [List.mem_singleton.mp he]
    rfl
  | ok execution =>
    let entry := options.entry l.history.ids
    let monitored := monitor (some execution) (.execution l.history.ids)
      ((l.admitted options).put l.history.ids
        { entry with status := { entry.status with execution := some execution } })
    have hmonitored : ∀ e ∈ monitored.effects, e.accepted = none := mild_monitor _ _ _
    refine Or.inr ⟨(admitStart options l).effects ++ (monitored.effects ++
      (persist monitored.state).effects), l.history.ids, ?_,
      mild_append hadmit (mild_append hmonitored (mild_persist _)), ?_⟩
    · simp only [List.append_assoc]
      rfl
    · exact AList.mem_insert _ |>.mpr (Or.inl rfl)

/-- What a message accepts it tells last, and then the ledger has its entry. -/
theorem accepted_handle (hl : l.Sound) (message : Message) :
    (∀ e ∈ (handle sight message l).effects, e.accepted = none) ∨
    (handle sight message l).Saves Effect.stored ∧
    ∃ first caller id, (handle sight message l).effects = first ++ [.reply caller (.started id)] ∧
      (∀ e ∈ first, e.accepted = none) ∧ id ∈ (handle sight message l).state.entries := by
  by_cases hadmits : message.Admits l
  · cases message with
    | call caller request =>
      cases request with
      | start options child =>
        have hnone : refusal options l = none := hadmits
        have hstart : handle sight (.call caller (.start options child)) l =
            (admitStart options l).andThen (started caller options l.history.ids child) := by
          change start caller options child l = _
          unfold start
          rw [hnone]
        rw [hstart]
        refine (@accepted_started l caller options child).imp_right fun h => ⟨?_, ?_⟩
        · cases child with
          | ok execution => exact .andThen <| .andThen <| saves_respond _ _
          | error reason => exact .andThen <| saves_respond _ _
        · obtain ⟨first, id, hlast⟩ := h
          exact ⟨first, caller, id, hlast⟩
      | _ => exact absurd hadmits (fun h => h)
    | _ => exact absurd hadmits (fun h => h)
  · exact Or.inl (mild_handle hl message hadmits)

/-- The virtual machine is still there, or its cleanup is certified. -/
def Ledger.Accounts (l : Ledger) (id : ℕ) : Prop :=
  id ∈ l.entries ∨ ∃ result, (id, result, .ok) ∈ l.history.outcomes

theorem Ledger.Evolves.accounts (h : l.Evolves l') (hid : l.Accounts id) : l'.Accounts id := by
  rcases hid with hid | ⟨result, hmem⟩
  · by_cases hthere : id ∈ l'.entries
    · exact Or.inl hthere
    · exact Or.inr (h.kept id hid hthere)
  · exact Or.inr ⟨result, h.outcomes.subset hmem⟩

/-- What has been accepted is accounted for in the table. -/
def Accounted (saved : Option Ledger) (effects : List Effect) : Prop :=
  ∀ id ∈ acceptedIn effects, ∃ l, saved = some l ∧ l.Accounts id

/-- A part of a turn, when what it accepts is accounted for. -/
theorem accounted_part {t : LedgerTurn} {saved : Option Ledger} {before es : List Effect}
    (hbefore : Accounted saved before) (hpart : es <+: t.effects)
    (hevolves : ∀ l, saved = some l → t.Keeps Effect.stored fun l' => l.Evolves l')
    (hnew : Accounted (latest Effect.stored saved es) es) :
    Accounted (latest Effect.stored saved es) (before ++ es) := by
  intro id hid
  rw [acceptedIn_append] at hid
  rcases List.mem_append.mp hid with hid | hid
  · obtain ⟨l, hl, haccounts⟩ := hbefore id hid
    have hsome : (latest Effect.stored saved es).isSome := latest_isSome es (hl ▸ rfl)
    obtain ⟨l', hl'⟩ := Option.isSome_iff_exists.mp hsome
    refine ⟨l', hl', ?_⟩
    rcases latest_cases hl' with hsame | ⟨e, he, hstored⟩
    · rw [hl] at hsame
      cases hsame
      exact haccounts
    · exact ((hevolves l hl).stored e (hpart.subset he) l' hstored).accounts haccounts
  · exact hnew id hid

/-- Every beginning of a turn accounts for what it accepts. -/
theorem accounted_handle (hl : l.Sound) (message : Message) {saved : Option Ledger}
    {es : List Effect} (hpart : es <+: (handle sight message l).effects) :
    Accounted (latest Effect.stored saved es) es := by
  intro id hid
  rcases @accepted_handle l sight hl message with hmild | ⟨hsaves, first, caller, id', hlast, hmild, hthere⟩
  · rw [acceptedIn_mild fun e he => hmild e (hpart.subset he)] at hid
    cases hid
  · rw [hlast] at hpart
    rcases List.prefix_concat_iff.mp hpart with rfl | hearlier
    · have hid' : id = id' := by
        rw [acceptedIn_append, acceptedIn_mild hmild] at hid
        exact List.mem_singleton.mp hid
      refine ⟨(handle sight message l).state, ?_, hid' ▸ Or.inl hthere⟩
      rw [← hlast]
      exact hsaves saved
    · rw [acceptedIn_mild fun e he => hmild e (hearlier.subset he)] at hid
      cases hid

theorem accounted_boot {input : LedgerOptions × Sight} {t : LedgerTurn} {es : List Effect}
    (hsound : w.Has Ledger.Sound) (hw : Accounted w.saved (w.past ++ w.session))
    (hboot : ledger.boot input w.saved = some t) (hpart : es <+: t.effects) :
    Accounted (latest Effect.stored w.saved es) ((w.past ++ w.session) ++ es) := by
  have hrestored := @sound_restore input.1 w.saved fun l hl => hsound l (Or.inl hl)
  refine accounted_part hw hpart (fun l hl => ?_) fun id hid => ?_
  · rw [hl] at hboot
    exact keeps_boot hboot (fun s hs => Option.some.inj hs ▸ hsound l (Or.inl hl))
      fun l' _ hmoves => (evolves_restore input.1).trans hmoves.evolves
  · rw [acceptedIn_mild fun e he => mild_init hboot hrestored e (hpart.subset he)] at hid
    cases hid

theorem accounted_turn {message : Message} {es : List Effect} (hsound : w.Has Ledger.Sound)
    (hsync : w.Synchronous) (hw : Accounted w.saved (w.past ++ w.session))
    (hup : w.memory = some l) (hpart : es <+: (handle sight message l).effects) :
    Accounted (latest Effect.stored w.saved es) (w.past ++ (w.session ++ es)) := by
  have hl : l.Sound := hsound l (Or.inr hup)
  rw [← List.append_assoc]
  refine accounted_part hw hpart (fun l' hl' => ?_) (accounted_handle hl message hpart)
  rw [hsync l hup] at hl'
  cases hl'
  exact (follows_handle hl message).mono fun _ h => h.evolves

/-- In every run all that has been accepted is still there or certified, whenever the ledger
dies. -/
theorem accounted_run (h : Runs .initial w) : Accounted w.saved (w.past ++ w.session) := by
  induction h with
  | refl => exact fun id hid => by cases hid
  | @step w w' hbefore hstep ih =>
    have hsound := sound_run hbefore
    have hsync := synchronous_run hbefore
    cases hstep with
    | boot down hk hboot => exact accounted_boot hsound ih hboot List.prefix_rfl
    | bootCrash n down hk hboot =>
      exact accounted_boot hsound ih hboot (List.take_prefix n _)
    | handle up hi => exact accounted_turn hsound hsync ih up List.prefix_rfl
    | crash n up hi => exact accounted_turn hsound hsync ih up (List.take_prefix n _)

end Accepted

section Calls

variable {inputs : List (Sight × Message)} {place : Place}

/-- The turn of a call, and the turns of the messages that come after it. -/
def called (sight : Sight) (c : Caller) (request : Request) (inputs : List (Sight × Message))
    (l : Ledger) : LedgerTurn :=
  (handleCall sight c request l).andThen (handleAll inputs)

theorem follows_call (hl : l.Sound) (request : Request) :
    (handleCall sight c request l).state.Sound ∧
      l.Evolves (handleCall sight c request l).state := by
  have hfollows := (@follows_handle l sight hl (.call c request)).state
  exact ⟨hfollows.sound, hfollows.evolves⟩

theorem follows_called (hl : l.Sound) (request : Request) :
    (called sight c request inputs l).state.Sound ∧
      l.Evolves (called sight c request inputs l).state := by
  obtain ⟨hsound, hevolves⟩ := @follows_call l sight c hl request
  obtain ⟨hsound', hevolves'⟩ := follows_handleAll inputs hsound
  exact ⟨hsound', hevolves.trans hevolves'⟩

/-- After the call its caller waits in one place, or it has been answered. -/
def Asked (c : Caller) (place : Place) (P : Answer → Prop) (t : LedgerTurn) : Prop :=
  t.state.Waits c place ∧ answersTo c t.effects = [] ∨
    t.state.Free c ∧ ∃ answer, answersTo c t.effects = [answer] ∧ P answer

/-- A caller that waits is told later, and one that has been answered is not told again. -/
theorem asked_called {P : Answer → Prop} {request : Request} (hl : l.Sound)
    (hothers : ∀ input ∈ inputs, ¬ input.2.From c)
    (hasked : Asked c place P (handleCall sight c request l)) :
    Asked c place (fun answer => P answer ∨
      place.Told (handleCall sight c request l).state (called sight c request inputs l).state answer)
      (called sight c request inputs l) := by
  obtain ⟨hsound, -⟩ := @follows_call l sight c hl request
  have hrest := tells_handleAll inputs hsound hothers
  unfold Asked called
  rw [Turn.andThen_effects, answersTo_append]
  rcases hasked with ⟨hwaits, hnone⟩ | ⟨hfree, answer, hanswer, hP⟩
  · rw [hnone, List.nil_append]
    rcases hrest.waits place hwaits with hstill | ⟨hfree, answer, hanswer, htold⟩
    · exact Or.inl hstill
    · exact Or.inr ⟨hfree, answer, hanswer, Or.inr htold⟩
  · obtain ⟨hfree', hnone⟩ := hrest.free hfree
    refine Or.inr ⟨hfree', answer, ?_, Or.inl hP⟩
    rw [hanswer, hnone, List.append_nil]

/-- The recorded outcome of a virtual machine. There is no other. -/
structure Ledger.Outcome (l : Ledger) (id : ℕ) (result : Result) (cleanup : Cleanup) : Prop where
  recorded : (id, result, cleanup) ∈ l.history.outcomes
  unique : ∀ result' cleanup', (id, result', cleanup') ∈ l.history.outcomes →
    result' = result ∧ cleanup' = cleanup

theorem Ledger.Sound.outcome (hl : l.Sound) {result : Result} {cleanup : Cleanup}
    (h : (id, result, cleanup) ∈ l.history.outcomes) : l.Outcome id result cleanup :=
  ⟨h, fun _ _ h' => outcome_unique hl h' h⟩

/-- What a call that awaits a virtual machine is told at once. -/
def AwaitTold (l : Ledger) (id : ℕ) (answer : Answer) : Prop :=
  answer = .refused .notFound ∧ id ∉ l.entries ∨
    ∃ result cleanup, answer = .result (some result) ∧ (id, result, cleanup) ∈ l.history.outcomes

theorem asked_await (hl : l.Sound) (hfree : l.Free c) :
    Asked c (.entry id) (AwaitTold l id) (handleCall sight c (.await id) l) := by
  change Asked c (.entry id) (AwaitTold l id) (await c id l)
  unfold await
  split
  · rename_i entry hlookup
    split
    · exact Or.inl ⟨waits_put hfree hlookup, rfl⟩
    · rename_i hdone
      obtain ⟨-, result, cleanup, hresult, -, hmem⟩ :=
        (hl.entries id entry hlookup).completed (Bool.not_eq_true _ ▸ hdone)
      rw [hresult]
      exact Or.inr ⟨hfree, _, answersTo_respond _ _, Or.inr ⟨result, cleanup, rfl, hmem⟩⟩
  · rename_i hlookup
    exact Or.inr ⟨hfree, _, answersTo_respond _ _, Or.inl ⟨rfl, AList.lookup_eq_none.mp hlookup⟩⟩

theorem asked_stop (hfree : l.Free c) :
    Asked c (.entry id) (fun _ => True) (handleCall sight c (.stop id) l) := by
  change Asked c (.entry id) _ (stop c id l)
  unfold stop
  split
  · rename_i entry hlookup
    split
    · refine Or.inl ⟨waits_put hfree hlookup, ?_⟩
      rw [Turn.andThen_effects, answersTo_append, Turn.emit_effects, answersTo_cancelEntry]
      rfl
    · exact Or.inr ⟨hfree, _, answersTo_respond _ _, trivial⟩
  · exact Or.inr ⟨hfree, _, answersTo_respond _ _, trivial⟩

/-- The ledger when its shutdown has been asked for. -/
abbrev Ledger.closing (l : Ledger) (c : Caller) : Ledger :=
  { l with mode := .shutdown, shutdownWaiters := c :: l.shutdownWaiters }

theorem waits_closing (hfree : l.Free c) : (l.closing c).Waits c .shutdown := by
  intro other
  cases other with
  | entry id => exact (hfree (.entry id)).trans (if_neg (by simp)).symm
  | shutdown =>
    have hzero : l.shutdownWaiters.count c = 0 := hfree .shutdown
    have hone : (l.closing c).waiting c .shutdown = (c :: l.shutdownWaiters).count c := rfl
    rw [hone, List.count_cons_self, hzero, if_pos rfl]

theorem sound_closing (hl : l.Sound) (c : Caller) : (l.closing c).Sound :=
  hl.congr ⟨rfl, rfl, rfl, rfl⟩

theorem asked_shutdown (hl : l.Sound) (hfree : l.Free c) :
    Asked c .shutdown
      (Place.Told l (handleCall sight c .shutdown l).state · .shutdown)
      (handleCall sight c .shutdown l) := by
  have hrest := @fair_shutdown_rest sight c _ (sound_closing hl c)
  exact hrest.tells.waits .shutdown (waits_closing hfree)

end Calls

section Shutdown

variable {inputs : List (Sight × Message)} {w : World Ledger Effect}

/-- A shutdown refuses every start. -/
theorem refused_shutdown (hmode : l.mode = .shutdown) (message : Message) :
    ¬ message.Admits l := by
  intro hadmits
  cases message with
  | call caller request =>
    cases request with
    | start options child =>
      have hopen := (refusal_none hadmits).1
      rw [hmode] at hopen
      cases hopen
    | _ => exact hadmits
  | _ => exact hadmits

/-- A shutdown goes on, and nothing is accepted any more. -/
theorem shutdown_handleAll (inputs : List (Sight × Message)) (hl : l.Sound)
    (hmode : l.mode = .shutdown) : (handleAll inputs l).state.mode = .shutdown ∧
      ∀ e ∈ (handleAll inputs l).effects, e.accepted = none := by
  induction inputs generalizing l with
  | nil => exact ⟨hmode, fun e he => by cases he⟩
  | cons input rest ih =>
    have hrefused := refused_shutdown hmode input.2
    have hfirst := (@proper_handle l input.1 hl input.2 hrefused).state
    obtain ⟨hlater, hmild⟩ := ih hfirst.1 (hfirst.2.1.shutdown hmode)
    exact ⟨hlater, mild_append (mild_handle hl input.2 hrefused) hmild⟩

theorem shutdown_called (hl : l.Sound) :
    (called sight c .shutdown inputs l).state.mode = .shutdown ∧
      (called sight c .shutdown inputs l).state.Settled ∧
      ∀ e ∈ (called sight c .shutdown inputs l).effects, e.accepted = none := by
  obtain ⟨hsound, -⟩ := @follows_call l sight c hl .shutdown
  have hrest := (@fair_shutdown_rest sight 0 _ (sound_closing hl c)).proper.state.2.1
  have hmode : (handleCall sight c .shutdown l).state.mode = .shutdown := hrest.shutdown rfl
  obtain ⟨hlater, hmild⟩ := shutdown_handleAll inputs hsound hmode
  refine ⟨hlater, settled_handleAll inputs (settled_settle sight _), mild_append ?_ hmild⟩
  exact mild_handle hl (.call c .shutdown) (fun h => h)

/-- A shutdown is answered once when nothing is active any more. -/
theorem answered_shutdown (hl : l.Sound) (hfree : l.Free c)
    (hothers : ∀ input ∈ inputs, ¬ input.2.From c) :
    answersTo c (called sight c .shutdown inputs l).effects = [] ∧
      (∃ id, (called sight c .shutdown inputs l).state.Active id) ∨
    ∃ answer, answersTo c (called sight c .shutdown inputs l).effects = [answer] := by
  obtain ⟨hmode, hsettled, -⟩ := @shutdown_called l sight c inputs hl
  rcases asked_called hl hothers (asked_shutdown hl hfree) with ⟨hwaits, hnone⟩ | ⟨-, answer, h, -⟩
  · refine Or.inl ⟨hnone, hsettled hmode fun hnobody => ?_⟩
    have hone := hwaits .shutdown
    rw [Ledger.waiting, hnobody, if_pos rfl] at hone
    cases hone
  · exact Or.inr ⟨answer, h⟩

/-- A shutdown is answered with success when the cleanup of all that was ever accepted is
certified. -/
theorem certified_shutdown (h : Runs .initial w) (hup : w.memory = some l) (hfree : l.Free c)
    (hothers : ∀ input ∈ inputs, ¬ input.2.From c)
    (hok : .ok ∈ answersTo c (called sight c .shutdown inputs l).effects) :
    ∀ id ∈ acceptedIn (w.past ++ w.session ++ (called sight c .shutdown inputs l).effects),
      ∃ result, (id, result, .ok) ∈
        (called sight c .shutdown inputs l).state.history.outcomes := by
  have hl : l.Sound := sound_run h l (Or.inr hup)
  obtain ⟨hsound, hcall⟩ := @follows_call l sight c hl .shutdown
  obtain ⟨-, hrest⟩ := follows_handleAll inputs hsound
  have htold : Place.Told l (called sight c .shutdown inputs l).state .ok .shutdown := by
    rcases asked_called hl hothers (asked_shutdown hl hfree) with ⟨-, hnone⟩ | ⟨-, answer, h, ht⟩
    · rw [hnone] at hok
      cases hok
    · rw [h] at hok
      rw [← List.mem_singleton.mp hok] at ht
      rcases ht with ht | ht
      · exact ht.mono .refl hcall hrest
      · exact ht.mono hcall hrest .refl
  intro id hid
  rw [acceptedIn_append, acceptedIn_mild (@shutdown_called l sight c inputs hl).2.2, List.append_nil] at hid
  obtain ⟨l', hl', hthere⟩ := accounted_run h id hid
  rw [synchronous_run h l hup] at hl'
  cases hl'
  rcases hthere with hthere | ⟨result, hmem⟩
  · exact htold rfl id hthere
  · exact ⟨result, hrest.outcomes.subset (hcall.outcomes.subset hmem)⟩

end Shutdown

section First

variable {w w' : World Ledger Effect} {result : Result} {cleanup : Cleanup}

/-- What has completed is not active. -/
theorem inactive_recorded (hl : l.Sound) (hmem : (id, result, cleanup) ∈ l.history.outcomes)
    (hlookup : l.entries.lookup id = some entry) : entry.active = false ∧
      entry.status.result = some result ∧ entry.status.cleanup = some cleanup := by
  have hsound := hl.entries id entry hlookup
  have hdone : entry.active = false := by
    by_contra hactive
    exact (hsound.pending (Bool.not_eq_false _ ▸ hactive)).2 _ hmem rfl
  obtain ⟨-, result', cleanup', hresult, hcleanup, hmem'⟩ := hsound.completed hdone
  obtain ⟨rfl, rfl⟩ := outcome_unique hl hmem hmem'
  exact ⟨hdone, hresult, hcleanup⟩

/-- Nothing happens to an entry that is not active when another completion comes. -/
theorem complete_inactive {guard : Option Pid} {result' : Result} {cleanup' : Cleanup}
    (hdone : ∀ entry, l.entries.lookup id = some entry → entry.active = false) :
    complete sight id guard result' cleanup' l = still l := by
  unfold complete
  split
  · rfl
  · rename_i entry hlookup
    rw [hdone entry hlookup, Bool.and_false, if_neg Bool.false_ne_true]

/-- The directory that is noted in an entry when its certificate has been read. -/
def Sight.noted (sight : Sight) (id : ℕ) (entry : Entry) : Entry :=
  match sight.terminalRow id with
  | some certified => { entry with status := { entry.status with directory := certified.directory } }
  | none => entry

theorem active_noted (sight : Sight) (id : ℕ) (entry : Entry) :
    (sight.noted id entry).active = entry.active := by
  unfold Sight.noted
  split <;> rfl

/-- The ledger after the end of a guard whose virtual machine has completed. -/
theorem guardDown_inactive {reason : Term}
    (hdone : ∀ entry, l.entries.lookup id = some entry → entry.active = false) :
    ∃ l', guardDown sight id reason l = still l' ∧ l'.history = l.history ∧
      l'.cleanOrder = l.cleanOrder ∧ l'.mode = l.mode ∧
      l'.shutdownWaiters = l.shutdownWaiters ∧
      (∀ other, other ≠ id → l'.entries.lookup other = l.entries.lookup other) ∧
      l'.entries.lookup id = (l.entries.lookup id).map (sight.noted id) := by
  have hlost : ∀ l' : Ledger, (∀ entry, l'.entries.lookup id = some entry → entry.active = false) →
      guardLost sight id reason l' = still l' := by
    intro l' hdone'
    unfold guardLost
    split
    · rename_i entry hlookup
      rw [hdone' entry hlookup, if_neg Bool.false_ne_true]
    · rfl
  unfold guardDown certificate
  cases hrow : sight.terminalRow id with
  | none =>
    have hsame : sight.noted id = fun entry => entry := by
      funext entry
      simp only [Sight.noted, hrow]
    refine ⟨l, hlost l hdone, rfl, rfl, rfl, rfl, fun _ _ => rfl, ?_⟩
    rw [hsame]
    cases l.entries.lookup id <;> rfl
  | some certified =>
    cases hlookup : l.entries.lookup id with
    | none => exact ⟨l, hlost l hdone, rfl, rfl, rfl, rfl, fun _ _ => rfl, hlookup⟩
    | some entry =>
      have hnoted : sight.noted id entry =
          { entry with status := { entry.status with directory := certified.directory } } := by
        simp only [Sight.noted, hrow]
      have hput : ∀ found, (l.put id (sight.noted id entry)).entries.lookup id = some found →
          found.active = false := by
        intro found hfound
        have hsame : (l.entries.insert id (sight.noted id entry)).lookup id = some found := hfound
        rw [AList.lookup_insert] at hsame
        cases hsame
        exact (active_noted sight id entry).trans (hdone entry hlookup)
      refine ⟨l.put id (sight.noted id entry), ?_, rfl, rfl, rfl, rfl,
        fun other hother => AList.lookup_insert_ne hother, AList.lookup_insert _⟩
      have hfirst : complete sight id (some certified.guard) certified.result certified.cleanup
          (l.put id { entry with
            status := { entry.status with directory := certified.directory } }) =
          still (l.put id (sight.noted id entry)) := by
        rw [← hnoted]
        exact complete_inactive hput
      change (complete sight id (some certified.guard) certified.result certified.cleanup
        (l.put id { entry with
          status := { entry.status with directory := certified.directory } })).andThen
            (guardLost sight id reason) = _
      rw [hfirst]
      exact hlost _ hput

/-- A turn answers nobody and leaves everything as it is but one entry. -/
structure Leaves (l : Ledger) (t : LedgerTurn) (id : ℕ) (noted : Entry → Entry) : Prop where
  history : t.state.history = l.history
  order : t.state.cleanOrder = l.cleanOrder
  silent : ∀ caller, answersTo caller t.effects = []
  others : ∀ other, other ≠ id → t.state.entries.lookup other = l.entries.lookup other
  entry : t.state.entries.lookup id = (l.entries.lookup id).map noted

theorem settle_silent (h : l.Settled) (c : Caller) :
    answersTo c (settle sight l).effects = [] := by
  unfold settle
  split
  · rfl
  · rename_i hidle
    split
    · rename_i hmode
      have hnobody : l.shutdownWaiters = [] := by
        by_contra hne
        exact hidle (busy_iff.mpr (h hmode hne))
      rw [hnobody]
      refine answersTo_silent fun e he => ?_
      obtain ⟨ref, -, rfl⟩ := List.mem_map.mp he
      rfl
    · split <;> rfl

theorem settle_same (sight : Sight) (l : Ledger) : (settle sight l).state.history = l.history ∧
    (settle sight l).state.cleanOrder = l.cleanOrder ∧
    (settle sight l).state.entries = l.entries := by
  unfold settle
  split
  · exact ⟨rfl, rfl, rfl⟩
  · split
    · exact ⟨rfl, rfl, rfl⟩
    · split <;> exact ⟨rfl, rfl, rfl⟩

/-- A turn that settles a ledger with the same accounts. -/
theorem leaves_settled {noted : Entry → Entry} (hsettled : l'.Settled)
    (hhistory : l'.history = l.history) (horder : l'.cleanOrder = l.cleanOrder)
    (hothers : ∀ other, other ≠ id → l'.entries.lookup other = l.entries.lookup other)
    (hentry : l'.entries.lookup id = (l.entries.lookup id).map noted) :
    Leaves l ((still l').andThen fun l => (settle sight l).andThen persist) id noted := by
  obtain ⟨hhistory', horder', hentries⟩ := settle_same sight l'
  have hstate : ((still l').andThen fun l => (settle sight l).andThen persist).state =
      (settle sight l').state := rfl
  refine ⟨hstate ▸ hhistory'.trans hhistory, hstate ▸ horder'.trans horder, fun caller => ?_,
    fun other hother => ?_, ?_⟩
  · have heffects : ((still l').andThen fun l => (settle sight l).andThen persist).effects =
        (settle sight l').effects ++ [.persist (settle sight l').state] := rfl
    rw [heffects, answersTo_append, settle_silent hsettled]
    rfl
  · rw [hstate, hentries]
    exact hothers other hother
  · rw [hstate, hentries]
    exact hentry

/-- The end of a process of a virtual machine that has completed. -/
theorem leaves_down {ref : Ref} {reason : Term} (hsettled : l.Settled)
    (hdone : ∀ entry, l.entries.lookup id = some entry → entry.active = false) :
    (l.monitors.lookup ref = some (.guard id) →
      Leaves l (handle sight (.down ref reason) l) id (sight.noted id)) ∧
    (l.monitors.lookup ref = some (.execution id) →
      Leaves l (handle sight (.down ref reason) l) id fun entry => entry) := by
  let popped : Ledger := { l with monitors := l.monitors.filter fun m => m.1 ≠ ref }
  have hpopped : popped.Settled := hsettled.congr rfl rfl fun _ hid => hid
  refine ⟨fun hkind => ?_, fun hkind => ?_⟩
  · obtain ⟨l', hdown, hhistory, horder, hmode, hwaiters, hothers, hentry⟩ :=
      @guardDown_inactive popped id sight reason hdone
    have hturn : handle sight (.down ref reason) l =
        (still l').andThen fun l => (settle sight l).andThen persist := by
      change down sight ref reason l = _
      unfold down
      rw [hkind, ← hdown]
      rfl
    rw [hturn]
    refine leaves_settled (hpopped.congr hmode hwaiters fun other hactive => ?_) hhistory horder
      hothers hentry
    obtain ⟨found, hfound, hstill⟩ := hactive
    by_cases hother : other = id
    · subst hother
      rw [hdone found hfound] at hstill
      cases hstill
    · exact ⟨found, (hothers other hother).trans hfound, hstill⟩
  · have hdown : executionDown id popped = still popped := by
      unfold executionDown
      split
      · rename_i entry hlookup
        rw [hdone entry hlookup]
        split <;> rfl
      · rfl
    have hturn : handle sight (.down ref reason) l =
        (still popped).andThen fun l => (settle sight l).andThen persist := by
      change down sight ref reason l = _
      unfold down
      rw [hkind, ← hdown]
      rfl
    rw [hturn]
    refine leaves_settled hpopped rfl rfl (fun _ _ => rfl) ?_
    change l.entries.lookup id = _
    cases l.entries.lookup id <;> rfl

/-- Another completion of a virtual machine is acknowledged, and that is all. -/
theorem finished_recorded {guard : Pid} {result' : Result} {cleanup' : Cleanup}
    (hdone : ∀ entry, l.entries.lookup id = some entry → entry.active = false) :
    handle sight (.call caller (.finished id guard result' cleanup')) l = respond caller .ok l := by
  change finished sight caller id guard result' cleanup' l = _
  unfold finished
  rw [complete_inactive hdone]
  rfl

/-- What is recorded stays so, in every run. -/
theorem recorded_run (h : Runs .initial w) (h' : Runs w w') (hl : w.saved = some l)
    (hl' : w'.saved = some l' ∨ w'.memory = some l')
    (hmem : (id, result, cleanup) ∈ l.history.outcomes) :
    l'.Outcome id result cleanup ∧ ∀ entry, l'.entries.lookup id = some entry →
      entry.active = false ∧ entry.status.result = some result ∧
        entry.status.cleanup = some cleanup := by
  obtain ⟨hsound, hevolves⟩ := evolves_run h h' hl l' hl'
  have hmem' := hevolves.outcomes.subset hmem
  exact ⟨hsound.outcome hmem', fun _ hlookup => inactive_recorded hsound hmem' hlookup⟩

end First

section Answers

variable {inputs : List (Sight × Message)} {w : World Ledger Effect}

/-- Whoever awaits a virtual machine is told its result, unless it is not there. -/
theorem answered_await (hl : l.Sound) (hfree : l.Free c)
    (hothers : ∀ input ∈ inputs, ¬ input.2.From c) :
    answersTo c (called sight c (.await id) inputs l).effects = [] ∧
      (called sight c (.await id) inputs l).state.Active id ∨
    answersTo c (called sight c (.await id) inputs l).effects = [.refused .notFound] ∧
      id ∉ l.entries ∨
    ∃ result cleanup, answersTo c (called sight c (.await id) inputs l).effects =
        [.result (some result)] ∧
      (called sight c (.await id) inputs l).state.Outcome id result cleanup := by
  obtain ⟨hsound, hevolves⟩ := @follows_called l sight c inputs hl (.await id)
  rcases asked_called hl hothers (asked_await hl hfree) with ⟨hwaits, hnone⟩ | ⟨-, answer, h, hsays⟩
  · refine Or.inl ⟨hnone, active_of_waiting hsound (c := c) ?_⟩
    rw [hwaits, if_pos rfl]
    exact Nat.one_pos
  · refine Or.inr ?_
    rw [h]
    rcases hsays with (⟨rfl, hnot⟩ | ⟨result, cleanup, rfl, hmem⟩) | ⟨result, cleanup, rfl, hmem⟩
    · exact Or.inl ⟨rfl, hnot⟩
    · exact Or.inr ⟨result, cleanup, rfl, hsound.outcome (hevolves.outcomes.subset hmem)⟩
    · exact Or.inr ⟨result, cleanup, rfl, hsound.outcome hmem⟩

/-- Whoever stops a virtual machine is answered once when it is not active any more. -/
theorem answered_stop (hl : l.Sound) (hfree : l.Free c)
    (hothers : ∀ input ∈ inputs, ¬ input.2.From c) :
    answersTo c (called sight c (.stop id) inputs l).effects = [] ∧
      (called sight c (.stop id) inputs l).state.Active id ∨
    ∃ answer, answersTo c (called sight c (.stop id) inputs l).effects = [answer] := by
  obtain ⟨hsound, -⟩ := @follows_called l sight c inputs hl (.stop id)
  rcases asked_called hl hothers (asked_stop hfree) with ⟨hwaits, hnone⟩ | ⟨-, answer, h, -⟩
  · refine Or.inl ⟨hnone, active_of_waiting hsound (c := c) ?_⟩
    rw [hwaits, if_pos rfl]
    exact Nat.one_pos
  · exact Or.inr ⟨answer, h⟩

/-- A call to a ledger that any run has led to is answered at most once, and once when what
it asks for has ended: a shutdown with success only if all that was ever accepted is
certified, and an await with the recorded result or, if there is no entry, with a refusal.
An outcome that is recorded stays the only one, and what comes later for its virtual
machine answers nobody and changes nothing but the directory that is noted. -/
theorem ledger_answers (h : Runs .initial w) (hup : w.memory = some l) (hfree : l.Free c)
    (hothers : ∀ input ∈ inputs, ¬ input.2.From c) :
    ((answersTo c (called sight c .shutdown inputs l).effects = [] ∧
        (∃ id, (called sight c .shutdown inputs l).state.Active id) ∨
      ∃ answer, answersTo c (called sight c .shutdown inputs l).effects = [answer]) ∧
      (.ok ∈ answersTo c (called sight c .shutdown inputs l).effects →
        ∀ id ∈ acceptedIn (w.past ++ w.session ++ (called sight c .shutdown inputs l).effects),
          ∃ result, (id, result, .ok) ∈
            (called sight c .shutdown inputs l).state.history.outcomes)) ∧
    (∀ id, answersTo c (called sight c (.stop id) inputs l).effects = [] ∧
        (called sight c (.stop id) inputs l).state.Active id ∨
      ∃ answer, answersTo c (called sight c (.stop id) inputs l).effects = [answer]) ∧
    (∀ id, answersTo c (called sight c (.await id) inputs l).effects = [] ∧
        (called sight c (.await id) inputs l).state.Active id ∨
      answersTo c (called sight c (.await id) inputs l).effects = [.refused .notFound] ∧
        id ∉ l.entries ∨
      ∃ result cleanup, answersTo c (called sight c (.await id) inputs l).effects =
          [.result (some result)] ∧
        (called sight c (.await id) inputs l).state.Outcome id result cleanup) ∧
    ∀ id result cleanup, (id, result, cleanup) ∈ l.history.outcomes →
      (∀ sight caller guard result' cleanup',
        handle sight (.call caller (.finished id guard result' cleanup')) l =
          respond caller .ok l) ∧
      (∀ sight ref reason, l.monitors.lookup ref = some (.guard id) →
        Leaves l (handle sight (.down ref reason) l) id (sight.noted id)) ∧
      (∀ sight ref reason, l.monitors.lookup ref = some (.execution id) →
        Leaves l (handle sight (.down ref reason) l) id fun entry => entry) ∧
      ∀ w' l', Runs w w' → w'.saved = some l' ∨ w'.memory = some l' →
        l'.Outcome id result cleanup ∧ ∀ entry, l'.entries.lookup id = some entry →
          entry.active = false ∧ entry.status.result = some result ∧
            entry.status.cleanup = some cleanup := by
  have hl : l.Sound := sound_run h l (Or.inr hup)
  refine ⟨⟨answered_shutdown hl hfree hothers, certified_shutdown h hup hfree hothers⟩,
    fun id => answered_stop hl hfree hothers, fun id => answered_await hl hfree hothers,
    fun id result cleanup hmem => ?_⟩
  have hdone : ∀ entry, l.entries.lookup id = some entry → entry.active = false :=
    fun entry hlookup => (inactive_recorded hl hmem hlookup).1
  have hsettled := settled_run h l hup
  exact ⟨fun sight caller guard result' cleanup' => finished_recorded hdone,
    fun sight ref reason => (leaves_down hsettled hdone).1,
    fun sight ref reason => (leaves_down hsettled hdone).2,
    fun w' l' h' hl' => recorded_run h h' (synchronous_run h l hup) hl' hmem⟩

/-- Nobody waits for anything. -/
theorem free_of_nobody (hentries : ∀ e ∈ l.entries.entries, e.2.waiters = [])
    (hwaiters : l.shutdownWaiters = []) : l.Free c := by
  intro place
  cases place with
  | shutdown => simp only [Ledger.waiting, hwaiters, List.count_nil]
  | entry id =>
    cases hlookup : l.entries.lookup id with
    | none => simp only [Ledger.waiting, hlookup, Option.elim_none]
    | some entry =>
      have hempty : entry.waiters = [] := hentries ⟨id, entry⟩ (AList.mem_entries.mpr hlookup)
      rw [waiting_of_lookup hlookup, hempty, List.count_nil]

/-- A call awaits a virtual machine, which completes and is forgotten at once: the caller is
told the result, once. -/
theorem ledger_answers_oneStarted : ∃ l, oneStarted.memory = some l ∧
    (answersTo 7 (called {} 7 (.await 0) [({}, .call 5 (.finished 0 11 .ok .ok))] l).effects = [] ∧
        (called {} 7 (.await 0) [({}, .call 5 (.finished 0 11 .ok .ok))] l).state.Active 0 ∨
      answersTo 7 (called {} 7 (.await 0) [({}, .call 5 (.finished 0 11 .ok .ok))] l).effects =
        [.refused .notFound] ∧ 0 ∉ l.entries ∨
      ∃ result cleanup,
        answersTo 7 (called {} 7 (.await 0) [({}, .call 5 (.finished 0 11 .ok .ok))] l).effects =
          [.result (some result)] ∧
        (called {} 7 (.await 0) [({}, .call 5 (.finished 0 11 .ok .ok))] l).state.Outcome 0 result
          cleanup) ∧
    answersTo 7 (called {} 7 (.await 0) [({}, .call 5 (.finished 0 11 .ok .ok))] l).effects =
      [.result (some .ok)] := by
  obtain ⟨l, hl⟩ := Option.isSome_iff_exists.mp
    (by decide +kernel : oneStarted.memory.isSome = true)
  have hnobody : ∀ l ∈ oneStarted.memory,
      (∀ e ∈ l.entries.entries, e.2.waiters = []) ∧ l.shutdownWaiters = [] := by decide +kernel
  have htold : ∀ l ∈ oneStarted.memory, answersTo 7 (called {} 7 (.await 0)
      [({}, .call 5 (.finished 0 11 .ok .ok))] l).effects = [.result (some .ok)] := by
    decide +kernel
  have hothers : ∀ input ∈ [(({} : Sight), Message.call 5 (.finished 0 11 .ok .ok))],
      ¬ input.2.From 7 := by
    intro input hinput
    rw [List.mem_singleton.mp hinput]
    exact fun hsame => absurd hsame (by decide : (5 : ℕ) ≠ 7)
  exact ⟨l, hl, (ledger_answers run_oneStarted hl
    (free_of_nobody (hnobody l hl).1 (hnobody l hl).2) hothers).2.2.1 0, htold l hl⟩

/-- A garden that keeps results, in which a virtual machine with a directory has completed. -/
def keptFinished : World Ledger Effect :=
  (((((((World.initial.booted ledger ({ twoMachines with resultLimit := 128 }, {})).handled ledger
    ({}, .call 1 (.attachSupervisor 2))).handled ledger ({}, .call 2 (.attachManager 3))).handled
    ledger ({}, .call 3 (.start { command := true, owner := 9 } (.ok 10)))).handled
    ledger ({}, .call 4 (.guardStarted 0 11))).handled
    ledger ({}, .statusChanged 0 11 [.directory "/run/vm"])).handled
    ledger ({}, .call 5 (.finished 0 11 .ok .ok)))

/-- The guard ends, and its row has no directory. -/
def keptDown : World Ledger Effect :=
  keptFinished.handled ledger
    ({ terminalRow := fun _ => some ⟨11, .ok, .ok, none⟩ }, .down 4 (.atom "normal"))

/-- The result of a virtual machine that has been forgotten is recorded, and an await of it is
refused. And the end of a guard changes the directory of a virtual machine that has
completed. -/
theorem forgotten_await_refused :
    (∃ l, oneFinished.memory = some l ∧ (0, .ok, .ok) ∈ l.history.outcomes ∧
      answersTo 7 (called {} 7 (.await 0) [] l).effects = [.refused .notFound]) ∧
    ∃ l l', keptFinished.memory = some l ∧ keptDown.memory = some l' ∧
      (l.entries.lookup 0).map (fun entry => entry.status.directory) = some (some "/run/vm") ∧
      (l'.entries.lookup 0).map (fun entry => entry.status.directory) = some none := by
  obtain ⟨l, hl⟩ := Option.isSome_iff_exists.mp
    (by decide +kernel : oneFinished.memory.isSome = true)
  obtain ⟨l₁, hl₁⟩ := Option.isSome_iff_exists.mp
    (by decide +kernel : keptFinished.memory.isSome = true)
  obtain ⟨l₂, hl₂⟩ := Option.isSome_iff_exists.mp
    (by decide +kernel : keptDown.memory.isSome = true)
  have hforgotten : ∀ l ∈ oneFinished.memory, (0, .ok, .ok) ∈ l.history.outcomes ∧
      answersTo 7 (called {} 7 (.await 0) [] l).effects = [.refused .notFound] := by
    decide +kernel
  have hbefore : ∀ l ∈ keptFinished.memory,
      (l.entries.lookup 0).map (fun entry => entry.status.directory) = some (some "/run/vm") := by
    decide +kernel
  have hafter : ∀ l ∈ keptDown.memory,
      (l.entries.lookup 0).map (fun entry => entry.status.directory) = some none := by
    decide +kernel
  exact ⟨⟨l, hl, hforgotten l hl⟩, l₁, l₂, hl₁, hl₂, hbefore l₁ hl₁, hafter l₂ hl₂⟩

end Answers

end Sower.Vm
