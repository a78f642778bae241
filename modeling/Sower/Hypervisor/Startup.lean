import Mathlib.Data.List.Sublists
import Sower.Hypervisor.Callers

/-!
# The way to a running machine

A machine counts as running only after the monitor's API has been asked for everything
that a startup consists of, one request after the other, and the last answer said so.
-/

namespace Sower.Hypervisor

open Traced

section Exchanges

/-- A request and the answer to it. -/
structure Exchange where
  pid : ℕ
  kind : RequestKind
  text : String

def Exchange.entries (exchange : Exchange) : List Entry :=
  [.request exchange.pid exchange.kind, .received (.requestResult exchange.pid (.ok exchange.text))]

/-- The requests have been answered one after the other, before the last entries. -/
def Exchanged (kinds : List RequestKind) (last history : List Entry) : Prop :=
  ∃ exchanges : List Exchange, exchanges.map Exchange.kind = kinds ∧
    (exchanges.flatMap Exchange.entries ++ last).Sublist history

/-- What a startup consists of. -/
def startupOrder : Mode → List RequestKind
  | .cli => [.ping, .info]
  | .api => [.ping, .create, .boot, .info]

/-- What comes before a request of the startup. -/
def preceding (mode : Mode) (kind : RequestKind) : List RequestKind :=
  (startupOrder mode).takeWhile (· != kind)

/-- Everything a startup consists of has happened, and the machine runs. -/
def Started (mode : Mode) (history : List Entry) : Prop :=
  ∃ exchanges : List Exchange, exchanges.map Exchange.kind = startupOrder mode ∧
    exchanges.getLast?.map Exchange.text = some "Running" ∧
      (exchanges.flatMap Exchange.entries).Sublist history

/-- Somebody is told that the machine runs. -/
def Entry.reportsReady : Entry → Bool
  | .notify (.ready _) => true
  | .reply _ (.awaitReady (.ok _)) => true
  | .reply _ (.status status) => status.phase == .ready
  | _ => false

/-- That the machine runs is only said after the startup. -/
def ReadyNeeds (mode : Mode) (before : List Entry) (e : Entry) : Prop :=
  e.reportsReady = true → Started mode before

variable {mode : Mode} {kinds : List RequestKind} {last history es : List Entry}

theorem exchanged_nil (history : List Entry) : Exchanged [] [] history :=
  ⟨[], rfl, List.nil_sublist _⟩

theorem Exchanged.append (h : Exchanged kinds last history) (es : List Entry) :
    Exchanged kinds last (history ++ es) := by
  obtain ⟨exchanges, hkinds, hsublist⟩ := h
  exact ⟨exchanges, hkinds, hsublist.trans (List.sublist_append_left _ _)⟩

/-- Something more follows. -/
theorem Exchanged.ask (h : Exchanged kinds [] history) (e : Entry) :
    Exchanged kinds [e] (history ++ [e]) := by
  obtain ⟨exchanges, hkinds, hsublist⟩ := h
  rw [List.append_nil] at hsublist
  exact ⟨exchanges, hkinds, hsublist.append (List.Sublist.refl [e])⟩

/-- The last entries may be forgotten. -/
theorem Exchanged.forget (h : Exchanged kinds last history) : Exchanged kinds [] history := by
  obtain ⟨exchanges, hkinds, hsublist⟩ := h
  refine ⟨exchanges, hkinds, ?_⟩
  rw [List.append_nil]
  exact (List.sublist_append_left _ _).trans hsublist

/-- A request is answered. -/
theorem Exchanged.answer {pid : ℕ} {kind : RequestKind}
    (h : Exchanged kinds [.request pid kind] history) (text : String) :
    ∃ exchanges : List Exchange, exchanges.map Exchange.kind = kinds ++ [kind] ∧
      exchanges.getLast?.map Exchange.text = some text ∧ (exchanges.flatMap Exchange.entries).Sublist
        (history ++ [.received (.requestResult pid (.ok text))]) := by
  obtain ⟨exchanges, hkinds, hsublist⟩ := h
  let last : Exchange := ⟨pid, kind, text⟩
  refine ⟨exchanges ++ [last], ?_, ?_, ?_⟩
  · rw [List.map_append, hkinds]
    rfl
  · rw [List.getLast?_concat]
    rfl
  · have hentries : (exchanges ++ [last]).flatMap Exchange.entries =
        exchanges.flatMap Exchange.entries ++ [.request pid kind] ++
          [.received (.requestResult pid (.ok text))] := by
      simp [Exchange.entries, last]
    rw [hentries]
    exact hsublist.append (List.Sublist.refl _)

theorem Exchanged.answered {pid : ℕ} {kind : RequestKind}
    (h : Exchanged kinds [.request pid kind] history) (text : String) :
    Exchanged (kinds ++ [kind]) []
      (history ++ [.received (.requestResult pid (.ok text))]) := by
  obtain ⟨exchanges, hkinds, _, hsublist⟩ := h.answer text
  refine ⟨exchanges, hkinds, ?_⟩
  rw [List.append_nil]
  exact hsublist

theorem Started.append (h : Started mode history) (es : List Entry) :
    Started mode (history ++ es) := by
  obtain ⟨exchanges, hkinds, hlast, hsublist⟩ := h
  exact ⟨exchanges, hkinds, hlast, hsublist.trans (List.sublist_append_left _ _)⟩

end Exchanges

section Starts

/-- How far the startup is, as the history shows it. -/
structure Starts (mode : Mode) (state : State) (history : List Entry) : Prop where
  ordered : Ordered (ReadyNeeds mode) history
  mode_eq : state.status.mode = mode
  /-- A request of the startup follows what comes before it; it is a ping until the API
  has answered one. -/
  asked : state.status.phase = .starting → ∀ r, state.request = some r →
    r.kind ∈ startupOrder mode ∧ (r.kind = .ping → state.status.apiReady = false) ∧
      Exchanged (preceding mode r.kind) [.request r.pid r.kind] history
  /-- Without a request there is nothing to ask for but the state of the machine. -/
  idle : state.status.phase = .starting → state.request = none → state.status.apiReady = true →
    Exchanged (preceding mode .info) [] history
  decided : ∀ status, state.startupResult = some (.ok status) → Started mode history
  ready : state.status.phase = .ready → Started mode history

variable {mode : Mode} {state state' : State} {history es : List Entry}

theorem ordered_unready (h : Ordered (ReadyNeeds mode) history)
    (hes : ∀ e ∈ es, e.reportsReady = false) : Ordered (ReadyNeeds mode) (history ++ es) := by
  refine h.append_free fun e he before hreports => ?_
  rw [hes e he] at hreports
  cases hreports

/-- Nothing about the startup changes, and whatever is said about it may be said. -/
theorem Starts.keep (h : Starts mode state history) (hstatus : state'.status = state.status)
    (hrequest : state'.request = state.request) (hresult : state'.startupResult = state.startupResult)
    (hordered : Ordered (ReadyNeeds mode) (history ++ es)) :
    Starts mode state' (history ++ es) where
  ordered := hordered
  mode_eq := by
    rw [hstatus]
    exact h.mode_eq
  asked := by
    rw [hstatus, hrequest]
    intro hstarting r hr
    obtain ⟨hkind, hping, hexchanged⟩ := h.asked hstarting r hr
    exact ⟨hkind, hping, hexchanged.append es⟩
  idle := by
    rw [hstatus, hrequest]
    intro hstarting hnone hready
    exact (h.idle hstarting hnone hready).append es
  decided := by
    rw [hresult]
    intro status hstatus'
    exact (h.decided status hstatus').append es
  ready := by
    rw [hstatus]
    intro hready
    exact (h.ready hready).append es

/-- The startup is over, if it was not before. -/
structure Later (state state' : State) : Prop where
  mode : state'.status.mode = state.status.mode
  past : state'.status.phase ≠ .starting
  ready : state'.status.phase = .ready → state.status.phase = .ready
  decided : ∀ status, state'.startupResult = some (.ok status) →
    state.startupResult = some (.ok status)

theorem Starts.later (h : Starts mode state history) (hlater : Later state state')
    (hes : ∀ e ∈ es, e.reportsReady = false) : Starts mode state' (history ++ es) where
  ordered := ordered_unready h.ordered hes
  mode_eq := hlater.mode.trans h.mode_eq
  asked hstarting := absurd hstarting hlater.past
  idle hstarting := absurd hstarting hlater.past
  decided status hdecided := (h.decided status (hlater.decided status hdecided)).append es
  ready hready := (h.ready (hlater.ready hready)).append es

/-- A request of the startup is sent. -/
theorem Starts.ask {kind : RequestKind} (h : Ordered (ReadyNeeds mode) history)
    (hmode : state.status.mode = mode) (hnone : state.request = none)
    (hundecided : state.startupResult = none) (hphase : state.status.phase = .starting)
    (hkind : kind ∈ startupOrder mode) (hping : kind = .ping → state.status.apiReady = false)
    (hexchanged : Exchanged (preceding mode kind) [] history) :
    Starts mode (state.requested kind) (history ++ state.requests kind) := by
  have hrequests : state.requests kind = [.request state.nextPid kind] := by
    unfold State.requests
    rw [hnone]
    rfl
  have hrequested : (state.requested kind).request = some ⟨state.nextPid, kind⟩ := by
    unfold State.requested
    rw [hnone]
    rfl
  rw [hrequests]
  constructor
  · refine ordered_unready h fun e he => ?_
    rw [List.mem_singleton.mp he]
    rfl
  · exact hmode
  · intro _ r hr
    rw [hrequested] at hr
    cases hr
    exact ⟨hkind, hping, hexchanged.ask _⟩
  · intro _ hr
    rw [hrequested] at hr
    cases hr
  · intro status hdecided
    change state.startupResult = some (.ok status) at hdecided
    rw [hundecided] at hdecided
    cases hdecided
  · intro hready
    change state.status.phase = .ready at hready
    rw [hphase] at hready
    cases hready

theorem unready_of_isStop {e : Entry} (h : e.isStop = true) : e.reportsReady = false := by
  cases e with
  | reply caller answer => cases h
  | notify event => cases h
  | _ => rfl

theorem unready_of_isEnd {e : Entry} (h : e.isEnd = true) : e.reportsReady = false := by
  cases e with
  | notify event =>
    cases event with
    | ready status => cases h
    | _ => rfl
  | _ => cases h

/-- A stop that begins ends the startup. -/
theorem begun_later {stopMode : StopMode} {cause : Cause}
    (h : state.status.phase = .starting → state.runner.isSome ∧ state.stopStage = none) :
    Later state (state.begun stopMode cause) := by
  have hsame {state' : State} (hphase : state'.status.phase = state.status.phase)
      (hresult : state'.startupResult = state.startupResult)
      (hmode : state'.status.mode = state.status.mode) (hover : state.status.phase ≠ .starting) :
      Later state state' := by
    refine ⟨hmode, ?_, ?_, ?_⟩
    · rw [hphase]
      exact hover
    · rw [hphase]
      exact id
    · rw [hresult]
      exact fun _ => id
  have hover {stage : StopMode} (hstage : state.stopStage = some stage) :
      state.status.phase ≠ .starting := by
    intro hstarting
    rw [(h hstarting).2] at hstage
    cases hstage
  have hentered {state' : State} (hphase : state'.status.phase = .stopping)
      (hresult : state'.startupResult = state.startupResult)
      (hmode : state'.status.mode = state.status.mode) : Later state state' := by
    refine ⟨hmode, ?_, ?_, ?_⟩
    · rw [hphase]
      decide
    · rw [hphase]
      intro hready
      cases hready
    · rw [hresult]
      exact fun _ => id
  unfold State.begun
  split
  · rename_i hrunner
    refine hsame rfl rfl rfl fun hstarting => ?_
    have hsome := (h hstarting).1
    rw [hrunner] at hsome
    cases hsome
  · rename_i hstage
    exact hsame rfl rfl rfl (hover hstage)
  · rename_i hstage
    exact hsame rfl rfl rfl (hover hstage)
  · rename_i hstage
    exact hsame rfl rfl rfl (hover hstage)
  · exact hentered rfl rfl rfl
  · unfold State.graceful
    split
    · exact hentered rfl rfl rfl
    · exact hentered rfl rfl rfl

theorem Sane.starts (h : Sane state) :
    state.status.phase = .starting → state.runner.isSome ∧ state.stopStage = none := by
  intro hstarting
  obtain ⟨hundecided, hstage, _⟩ := h.starting hstarting
  exact ⟨(h.undecided hundecided).1, hstage⟩

theorem Starts.begins (h : Starts mode state history) (stopMode : StopMode) (cause : Cause)
    (hstarts : state.status.phase = .starting → state.runner.isSome ∧ state.stopStage = none) :
    Starts mode (state.begun stopMode cause) (history ++ state.begins stopMode cause) :=
  h.later (begun_later hstarts) fun _ he => unready_of_isStop (isStop_of_begins he)

end Starts

section Steps

variable {mode : Mode} {state state' : State} {history es : List Entry}

theorem preceding_boot : preceding .api .boot = preceding .api .create ++ [.create] := by decide

theorem preceding_info : preceding .api .info = preceding .api .boot ++ [.boot] := by decide

theorem preceding_all (mode : Mode) : preceding mode .info ++ [.info] = startupOrder mode := by
  cases mode <;> decide

/-- What follows the first answer. -/
theorem preceding_afterPing (mode : Mode) :
    (if mode = .api then RequestKind.create else .info) ∈ startupOrder mode ∧
      preceding mode (if mode = .api then RequestKind.create else .info) =
        preceding mode .ping ++ [.ping] := by
  cases mode <;> decide

/-- Only a monitor without a configuration is asked to create a machine. -/
theorem api_of_mem {kind : RequestKind} (hkind : kind ∈ startupOrder mode)
    (hconfigures : kind = .create ∨ kind = .boot) : mode = .api := by
  cases mode with
  | api => rfl
  | cli => rcases hconfigures with rfl | rfl <;> exact absurd hkind (by decide)

/-- The answer to a request of the startup. -/
theorem Proceeds.starts {asking : State} {kind : RequestKind} {pid : ℕ} {message : Message}
    {result : Except RequestError String} (hproceeds : Proceeds state kind result es state')
    (hstate : state = { asking with request := none }) (h : Starts mode asking history)
    (hsane : Sane asking) (hphase : asking.status.phase = .starting)
    (hasked : asking.request = some ⟨pid, kind⟩)
    (hanswer : message = .requestResult pid result ∨ ∃ error, result = .error error) :
    Starts mode state' (history ++ .received message :: es) := by
  obtain ⟨hkind, hping, hexchanged⟩ := h.asked hphase _ hasked
  have hundecided : state.startupResult = none := by
    rw [hstate]
    exact (hsane.starting hphase).1
  have hmode : state.status.mode = mode := by
    rw [hstate]
    exact h.mode_eq
  have hstarting : state.status.phase = .starting := by
    rw [hstate]
    exact hphase
  have hunasked : state.request = none := by rw [hstate]
  have hreceived : Ordered (ReadyNeeds mode) (history ++ [.received message]) := by
    refine ordered_unready h.ordered fun e he => ?_
    rw [List.mem_singleton.mp he]
    rfl
  have hsplit : history ++ .received message :: es = history ++ [.received message] ++ es :=
    List.append_cons _ _ _
  have hok {text : String} (hresult : result = .ok text) :
      message = .requestResult pid (.ok text) := by
    rcases hanswer with rfl | ⟨error, rfl⟩
    · rw [hresult]
    · cases hresult
  -- Without a request on its way nothing is reported.
  have hwaiting {state' : State} (hstatus : state'.status.phase = .starting)
      (hmode' : state'.status.mode = mode) (hnone : state'.request = none)
      (hresult : state'.startupResult = none)
      (hidle : state'.status.apiReady = true → Exchanged (preceding mode .info) [] history) :
      Starts mode state' (history ++ [.received message] ++ [.schedulePoll]) := by
    constructor
    · refine ordered_unready hreceived fun e he => ?_
      rw [List.mem_singleton.mp he]
      rfl
    · exact hmode'
    · intro _ r hr
      rw [hnone] at hr
      cases hr
    · intro _ _ hready
      exact ((hidle hready).append _).append _
    · intro status hdecided
      rw [hresult] at hdecided
      cases hdecided
    · intro hready
      rw [hstatus] at hready
      cases hready
  rw [hsplit]
  cases hproceeds with
  | pinged text =>
    obtain ⟨hnext, hafter⟩ := preceding_afterPing mode
    rw [hmode, List.append_cons]
    apply Starts.ask
    · refine ordered_unready hreceived fun e he => ?_
      rw [List.mem_singleton.mp he]
      rfl
    · exact hmode
    · exact hunasked
    · exact hundecided
    · exact hstarting
    · exact hnext
    · intro heq
      split at heq <;> cases heq
    · rw [hafter, hok rfl]
      exact (hexchanged.answered text).append _
  | created text =>
    have hapi := api_of_mem hkind (Or.inl rfl)
    subst hapi
    apply Starts.ask hreceived hmode hunasked hundecided hstarting (by decide)
    · intro heq
      cases heq
    · rw [preceding_boot, hok rfl]
      exact hexchanged.answered text
  | booted text =>
    have hapi := api_of_mem hkind (Or.inr rfl)
    subst hapi
    apply Starts.ask hreceived hmode hunasked hundecided hstarting (by decide)
    · intro heq
      cases heq
    · rw [preceding_info, hok rfl]
      exact hexchanged.answered text
  | running =>
    have hstarted : Started mode (history ++ [.received message]) := by
      obtain ⟨exchanges, hkinds, hlast, hsublist⟩ := hexchanged.answer "Running"
      rw [preceding_all] at hkinds
      rw [hok rfl]
      exact ⟨exchanges, hkinds, hlast, hsublist⟩
    constructor
    · exact hreceived.append fun before e after _ _ => hstarted.append before
    · exact hmode
    · intro hstarting
      cases hstarting
    · intro hstarting
      cases hstarting
    · intro status _
      exact hstarted.append _
    · intro _
      exact hstarted.append _
  | waits vmState =>
    exact hwaiting hstarting hmode hunasked hundecided fun _ => hexchanged.forget
  | silent reason =>
    refine hwaiting hstarting hmode hunasked hundecided fun hready => ?_
    have hunready := hping rfl
    rw [hstate] at hready
    exact absurd hready (by rw [hunready]; decide)
  | fails kind error =>
    have hlater : Later state (state.begun .force (.startupRequest kind error)) := by
      apply begun_later
      rw [hstate]
      exact hsane.unrequest.starts
    have hasking : Later asking (state.begun .force (.startupRequest kind error)) := by
      rw [hstate] at hlater ⊢
      exact ⟨hlater.mode, hlater.past, hlater.ready, hlater.decided⟩
    rw [← hsplit]
    refine h.later hasking fun e he => ?_
    rcases List.mem_cons.mp he with rfl | hstop
    · rfl
    · exact unready_of_isStop (isStop_of_begins hstop)

/-- A call leaves the startup where it is, or ends it. -/
theorem Answers.starts {caller : ℕ} {call : Call} (hanswers : Answers state caller call es state')
    (hsane : Sane state) (h : Starts mode state history) :
    Starts mode state' (history ++ .called caller call :: es) := by
  have hsplit : history ++ .called caller call :: es = history ++ [.called caller call] ++ es :=
    List.append_cons _ _ _
  have hcalling : Starts mode state (history ++ [.called caller call]) := by
    refine h.keep rfl rfl rfl (ordered_unready h.ordered fun e he => ?_)
    rw [List.mem_singleton.mp he]
    rfl
  have hreply {answer : Answer}
      (hready : (Entry.reply caller answer).reportsReady = true → Started mode history) :
      Starts mode state (history ++ [.called caller call] ++ [.reply caller answer]) := by
    refine hcalling.keep rfl rfl rfl (hcalling.ordered.concat fun hreports => ?_)
    exact (hready hreports).append _
  have hquiet {state' : State} (hstatus : state'.status = state.status)
      (hrequest : state'.request = state.request)
      (hresult : state'.startupResult = state.startupResult) :
      Starts mode state' (history ++ [.called caller call] ++ []) :=
    hcalling.keep hstatus hrequest hresult
      (ordered_unready hcalling.ordered fun e he => by cases he)
  rw [hsplit]
  cases hanswers with
  | client => exact hreply fun hreports => by cases hreports
  | status =>
    refine hreply fun hreports => h.ready ?_
    simpa [Entry.reportsReady] using hreports
  | waits undecided => exact hquiet rfl rfl rfl
  | @decided result decided =>
    refine hreply fun hreports => ?_
    cases result with
    | ok status => exact h.decided status decided
    | error cause => cases hreports
  | unclean stopMode unclean => exact hreply fun hreports => by cases hreports
  | ended stopMode clean ended => exact hreply fun hreports => by cases hreports
  | timedOut stopMode clean => exact hreply fun hreports => by cases hreports
  | stops stopMode clean running timed =>
    have hwaits : Starts mode (state.awaitStop caller) 
        (history ++ [.called caller (.stop stopMode)] ++ []) := hquiet rfl rfl rfl
    rw [List.append_nil] at hwaits
    exact hwaits.begins _ _ hsane.starts

/-- A startup that is decided now has failed. -/
theorem finished_decided {cause : Cause} {status : Status}
    (h : some (state.startupResult.getD (.error cause)) = some (.ok status)) :
    state.startupResult = some (.ok status) := by
  cases hresult : state.startupResult with
  | none =>
    rw [hresult] at h
    cases h
  | some result =>
    rw [hresult] at h
    exact h

theorem completed_later (reason : ExitReason) : Later state (state.completed reason) where
  mode := rfl
  past := by
    have hended (failed : Bool) : (if failed then Phase.failed else Phase.exited) ≠ .starting := by
      cases failed <;> decide
    exact hended _
  ready hready := by
    have hended (failed : Bool) : (if failed then Phase.failed else Phase.exited) ≠ .ready := by
      cases failed <;> decide
    exact absurd hready (hended _)
  decided _ hdecided := @finished_decided (exitedState state.hooked reason) _ _ hdecided

theorem unready_of_completes {reason : ExitReason} {e : Entry} (h : e ∈ state.completes reason) :
    e.reportsReady = false := by
  rcases mem_completes h with hstop | hend | ⟨caller, cause, rfl⟩ | ⟨caller, rfl⟩
  · exact unready_of_isStop hstop
  · exact unready_of_isEnd hend
  · rfl
  · rfl

theorem unready_of_reportsUnclean {message : String} {e : Entry}
    (h : e ∈ state.reportsUnclean message) : e.reportsReady = false := by
  rcases mem_reportsUnclean h with hstop | hend | ⟨caller, cause, rfl⟩ | ⟨caller, rfl⟩
  · exact unready_of_isStop hstop
  · exact unready_of_isEnd hend
  · rfl
  · rfl

/-- The cleanup has failed. -/
theorem Starts.reportsUnclean (h : Starts mode state history) (message : String) :
    Starts mode (state.unclean message) (history ++ state.reportsUnclean message) := by
  have hes : ∀ e ∈ state.reportsUnclean message, e.reportsReady = false :=
    fun e he => unready_of_reportsUnclean he
  cases hrecorded : state.cleanupError with
  | some recorded =>
    have hsame : state.unclean message = state := by
      unfold State.unclean
      rw [hrecorded]
    rw [hsame]
    exact h.keep rfl rfl rfl (ordered_unready h.ordered hes)
  | none =>
    have hunclean : state.unclean message =
        { (uncleanState state.hooked message).finished (.error (.cleanupFailed message)) with
          stopWaiters := [] } := by
      unfold State.unclean
      rw [hrecorded]
    rw [hunclean]
    refine h.later ⟨rfl, ?_, ?_, ?_⟩ hes
    · intro hstarting
      cases hstarting
    · intro hready
      cases hready
    · intro status hdecided
      exact @finished_decided (uncleanState state.hooked message) _ _ hdecided

/-- Whatever is received, what is said about the startup is true. -/
theorem Handles.starts {message : Message} (hhandles : Handles state message es state')
    (hsane : Sane state) (h : Starts mode state history) :
    Starts mode state' (history ++ .received message :: es) := by
  have hsplit : history ++ .received message :: es = history ++ [.received message] ++ es :=
    List.append_cons _ _ _
  have hreceived : Starts mode state (history ++ [.received message]) := by
    refine h.keep rfl rfl rfl (ordered_unready h.ordered fun e he => ?_)
    rw [List.mem_singleton.mp he]
    rfl
  have hquiet {state' : State} (hstatus : state'.status = state.status)
      (hrequest : state'.request = state.request)
      (hresult : state'.startupResult = state.startupResult)
      (hes : ∀ e ∈ es, e.reportsReady = false) :
      Starts mode state' (history ++ [.received message] ++ es) :=
    hreceived.keep hstatus hrequest hresult (ordered_unready hreceived.ordered hes)
  have hforced {stage : StopMode} (hstage : state.stopStage = some stage) :
      state.status.phase ≠ .starting := by
    intro hstarting
    have hnone := (hsane.starting hstarting).2.1
    rw [hstage] at hnone
    cases hnone
  cases hhandles with
  | ignored harmless =>
    rw [hsplit]
    exact hquiet rfl rfl rfl fun e he => by cases he
  | heard stream osPid bytes =>
    rw [hsplit]
    refine hquiet rfl rfl rfl fun e he => ?_
    rw [List.mem_singleton.mp he]
    rfl
  | unclean message =>
    rw [hsplit]
    exact hreceived.reportsUnclean message
  | exited reason runner =>
    rw [hsplit]
    exact hreceived.later (completed_later reason) fun e he => unready_of_completes he
  | proceeds asked answer harmless starting proceeds =>
    exact proceeds.starts rfl h hsane starting asked answer
  | late kind result harmless late =>
    rw [hsplit]
    refine hreceived.later ⟨rfl, late, id, fun _ => id⟩ fun e he => ?_
    unfold State.stopReplied at he
    split at he
    · split at he
      · rw [List.mem_singleton.mp he]
        rfl
      · cases he
    · cases he
  | orphaned gone =>
    rw [hsplit]
    exact hquiet rfl rfl rfl fun e he => by cases he
  | ownerDown running =>
    rw [hsplit]
    have hdead : Starts mode { state with ownerDead := true }
        (history ++ [.received .ownerDown]) := { hreceived with }
    exact hdead.begins _ _ hsane.starts
  | poll starting =>
    rw [hsplit]
    cases hrequest : state.request with
    | some current =>
      have hnothing {kind : RequestKind} : state.requests kind = [] := by
        unfold State.requests
        rw [hrequest]
        rfl
      have hsame {kind : RequestKind} : (state.requested kind).request = state.request := by
        unfold State.requested
        rw [hrequest]
        rfl
      refine hreceived.keep rfl hsame rfl (ordered_unready hreceived.ordered fun e he => ?_)
      rw [hnothing] at he
      cases he
    | none =>
      have hundecided := (hsane.starting starting).1
      by_cases hready : state.status.apiReady = true
      · rw [if_pos hready]
        apply Starts.ask hreceived.ordered h.mode_eq hrequest hundecided starting
        · cases mode <;> decide
        · intro heq
          cases heq
        · exact hreceived.idle starting hrequest hready
      · rw [if_neg hready]
        apply Starts.ask hreceived.ordered h.mode_eq hrequest hundecided starting
        · cases mode <;> decide
        · intro _
          simpa using hready
        · cases mode <;> exact exchanged_nil _
  | expires starting =>
    rw [hsplit]
    exact hreceived.begins _ _ hsane.starts
  | escalates graceful =>
    rw [hsplit]
    refine hreceived.later ⟨rfl, hforced graceful, id, fun _ => id⟩ fun e he => ?_
    exact unready_of_isStop (isStop_of_forces he)
  | givesUp running force clean =>
    rw [hsplit]
    refine hreceived.later ⟨rfl, hforced force, id, fun _ hdecided => ?_⟩ fun e he => ?_
    · exact finished_decided hdecided
    · rcases mem_givesUp he with ⟨caller, cause, rfl⟩ | ⟨caller, rfl⟩
      · rfl
      · rfl

/-- A server that is told to end says nothing about the startup. -/
theorem terminate_unready (state : State) (mailbox : List Message) :
    ∀ e ∈ (terminate state mailbox).effects, e.reportsReady = false := by
  intro e he
  obtain ⟨heard, hheard, heffects⟩ := terminate_effects state mailbox
  rw [heffects] at he
  rcases List.mem_append.mp he with hcancel | hrest
  · exact unready_of_isStop (isStop_of_cancels hcancel)
  · split at hrest
    · cases hrest
    · rcases List.mem_append.mp hrest with hhook | hlast
      · exact unready_of_isStop (isStop_of_hooks hhook)
      · rcases List.mem_cons.mp hlast with rfl | hnotify
        · rfl
        · obtain ⟨event, rfl, hready⟩ := hheard e hnotify
          cases event with
          | ready status => exact absurd rfl (hready status)
          | _ => rfl

end Steps

end Sower.Hypervisor
