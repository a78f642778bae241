import Sower.Activator.Activation
import Sower.Garden.AdminClient

/-!
# Asking the garden over its socket

A command asked for over the admin socket is the same as the command called in the garden: it
has the same effects, and however the answer arrives the one who asked is told what came of it
or that it is not known. Whatever else is sent to the socket has at most the effect of the
command on its first line, and that for a peer who may ask for it.
-/

namespace Sower.Garden.Admin

open Activator.Transports Activator.Handler

section Lines

variable {max : ℕ} {ending : ReadEnd} {buffer line later bytes all : List UInt8}
  {chunks : List (List UInt8)}

end Lines

section Replies

variable {parse : List UInt8 → Option Json} {ending : ReadEnd} {chunks rest : List (List UInt8)}
  {line : List UInt8} {reply : Reply}

end Replies

section Frames

/-- What the client makes of a frame. -/
def Frame.reply (frame : Frame) : Reply := ⟨frame.kind, frame.data, frame.exitCode, frame.status⟩

end Frames

section Answers

/-- The libraries of the client, and the one that writes the frames. -/
structure Codec where
  /-- `serde_json::to_string` -/
  write : Json → List UInt8
  /-- `serde_json::from_str` -/
  parse : List UInt8 → Option Json
  /-- `Jason.encode!` -/
  encode : Json → List UInt8

/-- A frame is one line, which the client reads as the object that it is. -/
structure Codec.Reads (codec : Codec) (frame : Frame) : Prop where
  parse : codec.parse (codec.encode frame.json) = some frame.json
  oneLine : newline ∉ codec.encode frame.json
  fits : (codec.encode frame.json).length ≤ maxLineBytes
  utf8 : (codec.encode frame.json).toByteArray.validateUTF8 = true

/-- Frames as they are sent. -/
def Codec.bytes (codec : Codec) (frames : List Frame) : List UInt8 :=
  unlines (frames.map fun frame => codec.encode frame.json)

variable {codec : Codec} {frame : Frame} {ending : ReadEnd} {chunks : List (List UInt8)}
  {later : List UInt8}

/-- What is shown of a frame. -/
def Frame.shown (frame : Frame) : List Shown :=
  if frame.kind = .ok then emitOk frame.reply else emitError frame.reply

/-- Lines of a message that is not empty. -/
def messageLines (message : String) : List String := written (some message)

/-- What is to be told of a command: what is shown, and the exit code. -/
def Outcome.told : Outcome → Option (List Shown × ℤ)
  | .ok message => some ((messageLines message).map .out, 0)
  | .error message => some ((messageLines message).map .err, 1)
  | .status report => some (writeStatus report, 0)
  | .crashed => none

def Handled.told : Handled → Option (List Shown × ℤ)
  | .dispatch _ outcome => outcome.told
  | .replyError message => some ((messageLines message).map .err, 1)
  | .disconnect => none

/-- What the client knows from what it has read. -/
structure Tells (told : Option (List Shown × ℤ)) (whole : Prop) (result : List Shown × Except String ℤ) :
    Prop where
  known : ∀ code, result.2 = .ok code → told = some (result.1, code)
  complete : whole → ∀ shown code, told = some (shown, code) → result = (shown, .ok code)

end Answers

section Calls

/-- The command that is asked for. -/
def GardenCommand.message : GardenCommand → Command
  | .trigger seedType sid force => .deploy seedType sid force
  | .reload => .reload
  | .status => .status
  | .reregister => .reregister

/-- The line of a command is read as its envelope, and the payload as what it carries. -/
structure Codec.Conveys (codec : Codec) (library : Library) (id : String) (command : GardenCommand) :
    Prop where
  decode : library.decode (codec.write (command.envelope id)) = .ok (command.envelope id)
  oneLine : newline ∉ codec.write (command.envelope id)
  castEmpty : library.castEmpty (.object []) = .ok ()
  castDeploy : ∀ seedType sid force, command = .trigger seedType sid force →
    library.castDeploy (deployPayload seedType sid force) = .ok (.deploy seedType sid force)

variable {codec : Codec} {library : Library} {host : Host} {policy : Policy} {id : String}
  {command : GardenCommand} {line : List UInt8}

theorem decodeRequest_of_cast {fields : List (String × Json)} {kind : String} {message : Command}
    (hkind : field "kind" fields = .string kind) (hknown : kind ∈ kinds)
    (hcast : castKind library kind (payload fields) = .ok message) :
    decodeRequest library (.object fields) = .ok ⟨field "id" fields, message⟩ := by
  unfold decodeRequest
  dsimp only
  rw [hkind]
  dsimp only
  rw [if_pos hknown, hcast]

theorem decodeRequest_envelope (h : codec.Conveys library id command) :
    decodeRequest library (command.envelope id) = .ok ⟨.string id, command.message⟩ := by
  have hempty := h.castEmpty
  cases command with
  | trigger seedType sid force =>
    have hcast := h.castDeploy seedType sid force rfl
    refine decodeRequest_of_cast rfl (by simp [kinds]) ?_
    rw [castKind, if_pos rfl]
    exact hcast
  | reload =>
    refine decodeRequest_of_cast rfl (by simp [kinds]) ?_
    rw [castKind, if_neg (by decide), if_pos rfl]
    exact congrArg (Except.map _) hempty
  | status =>
    refine decodeRequest_of_cast rfl (by simp [kinds]) ?_
    rw [castKind, if_neg (by decide), if_neg (by decide), if_neg (by decide)]
    exact congrArg (Except.map _) hempty
  | reregister =>
    refine decodeRequest_of_cast rfl (by simp [kinds]) ?_
    rw [castKind, if_neg (by decide), if_neg (by decide), if_pos rfl]
    exact congrArg (Except.map _) hempty

/-- The peer may ask. -/
def allowed (policy : Policy) (peercred : Except String Creds) : Bool :=
  peercred.toOption.any (authorized · policy)

/-- A command with a line of that length, called in the garden for a peer: what it does, and
what is to be told of it. -/
def called (host : Host) (policy : Policy) (peercred : Except String Creds) (command : Command)
    (length : ℕ) : List Effect × Option (List Shown × ℤ) :=
  if allowed policy peercred then
    if length < maxLineBytes then ((handle host command).1, (handle host command).2.told)
    else ([], none)
  else ([], some ([.err "unauthorized"], 1))

theorem handleConnection_of_allowed {connection : Connection}
    (h : allowed policy connection.peercred = true) :
    handleConnection library host policy connection =
      ((authorizedOutcome library host connection).1,
        emit (authorizedOutcome library host connection).2) := by
  unfold handleConnection
  unfold allowed at h
  cases hpeer : connection.peercred with
  | error reason =>
    rw [hpeer] at h
    cases h
  | ok creds =>
    rw [hpeer] at h
    have hcreds : authorized creds policy = true := h
    simp only [hcreds, if_true]

theorem handleConnection_of_refused {connection : Connection}
    (h : allowed policy connection.peercred = false) :
    handleConnection library host policy connection = ([], emit (.replyError "unauthorized")) := by
  unfold handleConnection
  unfold allowed at h
  cases hpeer : connection.peercred with
  | error reason => rfl
  | ok creds =>
    rw [hpeer] at h
    have hcreds : authorized creds policy = false := h
    simp only [hcreds, Bool.false_eq_true, if_false]

/-- The first line of what comes, as far as it is short enough. -/
theorem recvLine_of_line (hfree : newline ∉ line) (later : List UInt8) (ending : String) :
    recvLine (line ++ newline :: later) ending =
      if line.length < maxLineBytes then .line (line ++ [newline]) else .tooLong := by
  have hindex : (line ++ newline :: later).idxOf newline = line.length := by
    rw [List.idxOf_append_of_notMem hfree, List.idxOf_cons_self, Nat.add_zero]
  have hsplit : line ++ newline :: later = (line ++ [newline]) ++ later := by
    rw [List.append_assoc]
    rfl
  have htake : (line ++ newline :: later).take (line.length + 1) = line ++ [newline] := by
    rw [hsplit]
    exact List.take_left' List.length_append
  unfold recvLine
  rw [if_pos (List.mem_append_right _ List.mem_cons_self), hindex, htake]

theorem trimmed_line (hfree : newline ∉ line) :
    (line ++ [newline]).rdropWhile (· == newline) = line := by
  rw [List.rdropWhile_concat_pos _ _ _ (by simp), List.rdropWhile_eq_self_iff]
  intro hne hlast
  have hnewline := List.getLast_mem hne
  rw [beq_iff_eq.mp hlast] at hnewline
  exact hfree hnewline

/-- What comes of a connection that asks for a command. -/
def handledCall (host : Host) (policy : Policy) (peercred : Except String Creds) (id : String)
    (command : Command) (length : ℕ) : Handled :=
  if allowed policy peercred then
    if length < maxLineBytes then .dispatch (.string id) (handle host command).2
    else .disconnect
  else .replyError "unauthorized"

/-- A connection that asks for a command has the effects of calling it. -/
theorem handleConnection_of_request (hconveys : codec.Conveys library id command)
    (hline : buildRequestLine codec.write id command = .ok line) (peercred : Except String Creds)
    (ending : String) :
    handleConnection library host policy ⟨peercred, line ++ [newline], ending⟩ =
      ((called host policy peercred command.message line.length).1,
        emit (handledCall host policy peercred id command.message line.length)) := by
  have hwritten : line = codec.write (command.envelope id) := by
    unfold buildRequestLine encode at hline
    split_ifs at hline
    exact (Except.ok.inj hline).symm
  have hfree : newline ∉ line := hwritten ▸ hconveys.oneLine
  unfold called handledCall
  cases hallowed : allowed policy peercred with
  | false =>
    rw [handleConnection_of_refused hallowed]
    rfl
  | true =>
    rw [handleConnection_of_allowed hallowed]
    simp only [if_true]
    unfold authorizedOutcome readRequest
    dsimp only
    rw [recvLine_of_line hfree [] ending]
    by_cases hlength : line.length < maxLineBytes
    · simp only [if_pos hlength, trimmed_line hfree]
      rw [hwritten, hconveys.decode]
      dsimp only
      rw [decodeRequest_envelope hconveys]
    · simp only [if_neg hlength]

end Calls

section Samples

/-- A garden with one subscription. -/
def sampleGarden : Host where
  subscriptions := some [⟨"sub_a", "nixos"⟩]
  reregistration := .notRunning
  report := ⟨"1.0", [], none, none⟩

def sampleEnvelope : Json := (GardenCommand.trigger (some "nixos") none true).envelope "7"

def sampleFrames : List Frame :=
  emit (.dispatch (.string "7") (.ok "deployment enqueued"))

/-- The line of the sample is one byte, and so are its frames. -/
def sampleLibrary : Library where
  decode := fun line => if line = [1] then .ok sampleEnvelope else .error "invalid"
  castDeploy := fun _ => .ok (.deploy (some "nixos") none true)
  castEmpty := fun _ => .ok ()
  inspect := fun _ => ""

def sampleJsonCodec : Codec where
  write := fun _ => [1]
  parse := fun line =>
    if line = [2] then sampleFrames.head?.map Frame.json else sampleFrames.getLast?.map Frame.json
  encode := fun json =>
    match json with
    | .object [_, _, _, ("data", _)] => [2]
    | _ => [3]

theorem sample_decode : sampleLibrary.decode [1] = .ok sampleEnvelope := by
  simp only [sampleLibrary, if_true]

theorem sample_line : buildRequestLine sampleJsonCodec.write "7" (.trigger (some "nixos") none true) =
    .ok [1] := rfl

theorem sample_conveys :
    sampleJsonCodec.Conveys sampleLibrary "7" (.trigger (some "nixos") none true) where
  decode := sample_decode
  oneLine := by decide
  castEmpty := rfl
  castDeploy := by
    intro seedType sid force heq
    cases heq
    rfl

/-- Root asks, and the answer comes in two parts. -/
def sampleConnection : Connection := ⟨.ok ⟨0, 0⟩, [1, newline], "timeout"⟩

theorem sample_served : handleConnection sampleLibrary sampleGarden (buildPolicy 5 5) sampleConnection =
    ([.deploy ⟨"sub_a", "nixos"⟩ true], sampleFrames) := by
  rw [show sampleConnection = ⟨.ok ⟨0, 0⟩, [1] ++ [newline], "timeout"⟩ from rfl,
    handleConnection_of_request sample_conveys sample_line]
  rfl

end Samples

section Containment

/-- What a command may do to the garden. -/
inductive Permits (host : Host) : Command → Effect → Prop
  | bySid (subscriptions : List Subscription) (subscription : Subscription) (seedType : Option String)
      (force : Bool) (stored : host.subscriptions = some subscriptions)
      (mem : subscription ∈ subscriptions) :
      Permits host (.deploy seedType (some subscription.sid) force) (.deploy subscription force)
  | bySeedType (subscriptions : List Subscription) (subscription : Subscription) (force : Bool)
      (stored : host.subscriptions = some subscriptions)
      (only : subscriptions.filter (·.seedType = subscription.seedType) = [subscription]) :
      Permits host (.deploy (some subscription.seedType) none force) (.deploy subscription force)
  | reload : Permits host .reload .requestReload
  | reregister : Permits host .reregister .reregister

variable {host : Host} {command : Command} {effect : Effect}

/-- A command does one thing at most, which it may do. -/
theorem handle_permits (h : effect ∈ (handle host command).1) :
    (handle host command).1 = [effect] ∧ Permits host command effect := by
  cases command with
  | reload =>
    cases List.mem_singleton.mp h
    exact ⟨rfl, .reload⟩
  | status => cases h
  | reregister =>
    have hlist : (handle host .reregister).1 = [.reregister] ∨ (handle host .reregister).1 = [] := by
      unfold handle
      dsimp only
      cases host.reregistration with
      | ok gardenSid => exact Or.inl rfl
      | notRunning => exact Or.inr rfl
      | failed reason => exact Or.inl rfl
      | crashed => exact Or.inl rfl
    rcases hlist with hone | hnone
    · rw [hone] at h ⊢
      cases List.mem_singleton.mp h
      exact ⟨rfl, .reregister⟩
    · rw [hnone] at h
      cases h
  | deploy seedType sid force =>
    have hdeployed : ∀ subscriptions, host.subscriptions = some subscriptions →
        effect ∈ (deployCommand subscriptions seedType sid force).1 →
        (deployCommand subscriptions seedType sid force).1 = [effect] ∧
          Permits host (.deploy seedType sid force) effect := by
      intro subscriptions hstored hmem
      unfold deployCommand at hmem ⊢
      cases sid with
      | some sid =>
        dsimp only at hmem ⊢
        cases hfind : subscriptions.find? (·.sid = sid) with
        | none =>
          rw [hfind] at hmem
          cases hmem
        | some subscription =>
          rw [hfind] at hmem
          have hsid : subscription.sid = sid := by simpa using List.find?_some hfind
          cases List.mem_singleton.mp hmem
          refine ⟨rfl, ?_⟩
          rw [← hsid]
          exact .bySid subscriptions subscription seedType force hstored
            (List.mem_of_find?_eq_some hfind)
      | none =>
        cases seedType with
        | none => cases hmem
        | some seedType =>
          dsimp only at hmem ⊢
          split at hmem
          · cases hmem
          · rename_i subscription hfilter
            have hseedType : subscription.seedType = seedType := by
              have hin : subscription ∈ subscriptions.filter (·.seedType = seedType) := by
                rw [hfilter]
                exact List.mem_cons_self
              simpa using (List.mem_filter.mp hin).2
            cases List.mem_singleton.mp hmem
            refine ⟨rfl, ?_⟩
            rw [← hseedType] at hfilter ⊢
            exact .bySeedType subscriptions subscription force hstored hfilter
          · cases hmem
    unfold handle at h ⊢
    cases seedType with
    | none =>
      cases sid with
      | none => cases h
      | some sid =>
        dsimp only at h ⊢
        cases hstored : host.subscriptions with
        | none =>
          rw [hstored] at h
          cases h
        | some subscriptions =>
          rw [hstored] at h
          exact hdeployed subscriptions hstored h
    | some seedType =>
      dsimp only at h ⊢
      cases hstored : host.subscriptions with
      | none =>
        rw [hstored] at h
        cases h
      | some subscriptions =>
        rw [hstored] at h
        exact hdeployed subscriptions hstored h

end Containment

/-- Whoever connects and whatever is sent: something is done only for a peer that is root, the
owner of the socket or of its group, and only if the first line is short enough and a request.
It is one thing, and one that the command of the request may do: it deploys the stored
subscription with the key, or the only one of the seed type, asks for a reload, or has the
garden registered again. -/
theorem admin_contained (library : Library) (host : Host) (owner group : ℕ) (connection : Connection)
    (effect : Effect)
    (h : effect ∈ (handleConnection library host (buildPolicy owner group) connection).1) :
    (handleConnection library host (buildPolicy owner group) connection).1 = [effect] ∧
      (∃ creds, connection.peercred = .ok creds ∧
        (creds.uid = 0 ∨ creds.uid = owner ∨ creds.gid = group)) ∧
      ∃ line later json request, connection.input = line ++ newline :: later ∧ newline ∉ line ∧
        line.length < maxLineBytes ∧ library.decode line = .ok json ∧
        decodeRequest library json = .ok request ∧ Permits host request.message effect := by
  have hallowed : allowed (buildPolicy owner group) connection.peercred = true := by
    by_contra hnot
    rw [handleConnection_of_refused (Bool.eq_false_iff.mpr hnot)] at h
    cases h
  obtain ⟨creds, hcreds, hpeer⟩ : ∃ creds, connection.peercred = .ok creds ∧
      authorized creds (buildPolicy owner group) = true := by
    unfold allowed at hallowed
    cases hpeercred : connection.peercred with
    | error reason =>
      rw [hpeercred] at hallowed
      cases hallowed
    | ok creds =>
      rw [hpeercred] at hallowed
      exact ⟨creds, rfl, hallowed⟩
  rw [handleConnection_of_allowed hallowed] at h ⊢
  obtain ⟨request, hrequest, heffects⟩ : ∃ request, readRequest library connection = .ok request ∧
      (authorizedOutcome library host connection).1 = (handle host request.message).1 := by
    unfold authorizedOutcome at h ⊢
    cases hread : readRequest library connection with
    | ok request => exact ⟨request, rfl, rfl⟩
    | error reason =>
      rw [hread] at h
      cases reason <;> cases h
  rw [heffects] at h ⊢
  obtain ⟨hone, hpermits⟩ := handle_permits h
  refine ⟨hone, ⟨creds, hcreds, ?_⟩, ?_⟩
  · simpa [authorized, buildPolicy, List.mem_dedup, or_assoc] using hpeer
  · unfold readRequest at hrequest
    by_cases hmem : newline ∈ connection.input
    · obtain ⟨line, later, hinput, hfree⟩ := List.eq_append_cons_of_mem hmem
      rw [hinput, recvLine_of_line hfree] at hrequest
      by_cases hshort : line.length < maxLineBytes
      · rw [if_pos hshort] at hrequest
        dsimp only at hrequest
        rw [trimmed_line hfree] at hrequest
        cases hdecode : library.decode line with
        | error reason =>
          rw [hdecode] at hrequest
          cases hrequest
        | ok json =>
          rw [hdecode] at hrequest
          dsimp only at hrequest
          cases hdecoded : decodeRequest library json with
          | error reason =>
            rw [hdecoded] at hrequest
            cases hrequest
          | ok other =>
            rw [hdecoded] at hrequest
            cases hrequest
            exact ⟨line, later, json, request, hinput, hfree, hshort, hdecode, hdecoded, hpermits⟩
      · rw [if_neg hshort] at hrequest
        cases hrequest
    · unfold recvLine at hrequest
      rw [if_neg hmem] at hrequest
      by_cases hlong : maxLineBytes < connection.input.length
      · rw [if_pos hlong] at hrequest
        cases hrequest
      · rw [if_neg hlong] at hrequest
        cases hrequest

theorem admin_contained_root :
    Permits sampleGarden (.deploy (some "nixos") none true) (.deploy ⟨"sub_a", "nixos"⟩ true) := by
  have hmem : Effect.deploy ⟨"sub_a", "nixos"⟩ true ∈
      (handleConnection sampleLibrary sampleGarden (buildPolicy 5 5) sampleConnection).1 := by
    rw [sample_served]
    exact List.mem_cons_self
  obtain ⟨-, -, line, later, json, request, hinput, hfree, -, hdecode, hrequest, hpermits⟩ :=
    admin_contained sampleLibrary sampleGarden 5 5 sampleConnection _ hmem
  have hsent : [1] ++ newline :: [] = line ++ newline :: later := hinput
  have hline : line = [1] := (first_line_inj (by decide) hfree hsent).1.symm
  rw [hline] at hdecode
  have hjson : sampleEnvelope = json := Except.ok.inj (sample_decode.symm.trans hdecode)
  rw [← hjson] at hrequest
  have hknown := decodeRequest_envelope sample_conveys
  have hmessage : request = ⟨.string "7", .deploy (some "nixos") none true⟩ :=
    Except.ok.inj (hrequest.symm.trans hknown)
  rw [hmessage] at hpermits
  exact hpermits

end Sower.Garden.Admin
