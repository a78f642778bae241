import Sower.Vm.GuestControl

/-!
# Runs of the command loop

What the guest has written is a beginning of the bytes of a sequence of frames, all
of them written but the last one, which may stand in the buffer. Together with what
the pipes have yet to deliver, the payloads are the output of the process. Every
piece of the loop keeps this, and so every run does, whatever the calls return and
wherever the run is cut off.
-/

namespace Sower.Vm.GuestLoop

open Framing Incremental Stateful Protocol

section Frames

/-- A frame to the host. -/
structure OutFrame where
  kind : UInt8
  payload : List UInt8
  deriving DecidableEq, Repr

def OutFrame.bytes (f : OutFrame) : List UInt8 := encode f.kind f.payload

/-- A frame with output of the process. -/
structure OutFrame.Carries (f : OutFrame) : Prop where
  kind : f.kind = 2 ∨ f.kind = 3
  pos : 0 < f.payload.length
  le : f.payload.length ≤ chunk

/-- The bytes of frames, one after the other. -/
def stream (frames : List OutFrame) : List UInt8 := frames.flatMap OutFrame.bytes

/-- What the frames of one kind carry. -/
def payloads (kind : UInt8) (frames : List OutFrame) : List UInt8 :=
  (frames.filter fun f => f.kind = kind).flatMap OutFrame.payload

variable {frames : List OutFrame} {f : OutFrame} {kind : UInt8}

@[simp] theorem stream_append (frames later : List OutFrame) :
    stream (frames ++ later) = stream frames ++ stream later := List.flatMap_append

@[simp] theorem stream_singleton (f : OutFrame) : stream [f] = f.bytes := by
  simp [stream]

theorem payloads_append_same (frames : List OutFrame) (kind : UInt8) (data : List UInt8) :
    payloads kind (frames ++ [⟨kind, data⟩]) = payloads kind frames ++ data := by
  simp [payloads]

theorem payloads_append_of_ne (frames : List OutFrame) (h : f.kind ≠ kind) :
    payloads kind (frames ++ [f]) = payloads kind frames := by
  simp [payloads, h]

end Frames

section Buffer

/-- Payload and header together are the bytes of the frame. -/
theorem take_header_payload (output : Output) (kind : UInt8) {data : List UInt8}
    (h : data.length ≤ chunk) :
    ((output.payload data).header kind data.length).bytes.take (data.length + 5) =
      encode kind data := by
  have hsize := output.size
  have hlength : (kind :: be32 data.length).length = 5 := rfl
  have hroom : 0 + (kind :: be32 data.length).length ≤ (overwrite output.bytes 5 data).length := by
    rw [length_overwrite, hlength]
    omega
  have hpayload : (overwrite output.bytes 5 data).take (5 + data.length) =
      output.bytes.take 5 ++ data :=
    take_overwrite (by omega)
  have hfront := take_overwrite hroom
  have hback := drop_overwrite hroom
  rw [hlength, List.take_zero, List.nil_append, Nat.zero_add] at hfront
  rw [hlength, Nat.zero_add] at hback
  have hplace : ((overwrite output.bytes 5 data).drop 5).take data.length = data := by
    have htake : (output.bytes.take 5).length = 5 := by
      rw [List.length_take]
      omega
    have hdrop : (output.bytes.take 5 ++ data).drop (output.bytes.take 5).length = data :=
      List.drop_left
    rw [htake, ← hpayload, List.drop_take, Nat.add_sub_cancel_left] at hdrop
    exact hdrop
  change (overwrite (overwrite output.bytes 5 data) 0 (kind :: be32 data.length)).take
    (data.length + 5) = encode kind data
  rw [Nat.add_comm, List.take_add, hfront, hback, hplace]
  rfl

variable {output : Output} {written : List UInt8} {frames : List OutFrame} {f : OutFrame} {n : ℕ}

/-- The frames have been written, or the last one is in the buffer and partly written. -/
inductive Buffered (output : Output) (written : List UInt8) : List OutFrame → Prop
  | whole {frames : List OutFrame} (length : output.length = 0) (sent : output.sent = 0)
    (bytes : written = stream frames) : Buffered output written frames
  | partly {flushed : List OutFrame} {last : OutFrame}
    (buffer : output.bytes.take output.length = last.bytes)
    (length : output.length = last.bytes.length) (sent : output.sent ≤ output.length)
    (bytes : written = stream flushed ++ last.bytes.take output.sent) :
    Buffered output written (flushed ++ [last])

theorem Buffered.written_prefix (h : Buffered output written frames) :
    written <+: stream frames := by
  cases h with
  | whole length sent bytes =>
    rw [bytes]
  | partly buffer length sent bytes =>
    rw [bytes, stream_append, stream_singleton]
    exact (List.prefix_append_right_inj _).mpr (List.take_prefix _ _)

/-- Where nothing is buffered, all is written. -/
theorem Buffered.of_empty (h : Buffered output written frames) (hempty : output.length = 0) :
    output.sent = 0 ∧ written = stream frames := by
  cases h with
  | whole length sent bytes => exact ⟨sent, bytes⟩
  | partly buffer length sent bytes =>
    rw [hempty, OutFrame.bytes, length_encode] at length
    omega

/-- A write moves a part of the frame that is buffered. -/
theorem Buffered.write (h : Buffered output written frames) (hless : output.sent < output.length)
    (hn : n ≤ output.length - output.sent) :
    Buffered { output with sent := output.sent + n }
      (written ++ (output.bytes.drop output.sent).take n) frames := by
  cases h with
  | whole length sent bytes => omega
  | partly buffer length sent bytes =>
    rename_i flushed last
    have hmoved : (output.bytes.drop output.sent).take n = (last.bytes.drop output.sent).take n := by
      rw [← buffer, List.drop_take, List.take_take, min_eq_left hn]
    refine Buffered.partly buffer length ?_ ?_
    · dsimp only
      omega
    · dsimp only
      rw [bytes, hmoved, List.append_assoc, ← List.take_add]

/-- A frame that is written whole makes room for the next one. -/
theorem Buffered.flushed (h : Buffered output written frames)
    (hdone : ¬ output.sent < output.length) :
    Buffered { output with length := 0, sent := 0 } written frames := by
  cases h with
  | whole length sent bytes => exact Buffered.whole rfl rfl bytes
  | partly buffer length sent bytes =>
    rename_i flushed last
    refine Buffered.whole rfl rfl ?_
    rw [bytes, List.take_of_length_le (by omega), stream_append, stream_singleton]

/-- A frame is put into the empty buffer. -/
theorem Buffered.fill (h : Buffered output written frames) (hempty : output.length = 0)
    (hlength : f.payload.length ≤ chunk) :
    Buffered ((output.payload f.payload).header f.kind f.payload.length) written
      (frames ++ [f]) := by
  obtain ⟨hsent, hwritten⟩ := h.of_empty hempty
  refine Buffered.partly (take_header_payload output f.kind hlength) length_encode.symm ?_ ?_
  · change output.sent ≤ _
    omega
  · change written = stream frames ++ f.bytes.take output.sent
    rw [hwritten, hsent, List.take_zero, List.append_nil]

end Buffer

section Pipes

variable {g : Guest} {p q : Pipe} {rest : Option (List UInt8)}

theorem kind_ne (h : q ≠ p) : p.kind ≠ q.kind := by
  cases p <;> cases q <;> first | exact absurd rfl h | decide

@[simp] theorem pipe_setPipe : (g.setPipe p rest).pipe p = rest := by
  cases p <;> rfl

theorem pipe_setPipe_of_ne (h : q ≠ p) : (g.setPipe p rest).pipe q = g.pipe q := by
  cases p <;> cases q <;> first | exact absurd rfl h | rfl

/-- Setting a pipe leaves the rest of the guest alone. -/
theorem setPipe_unchanged (g : Guest) (p : Pipe) (rest : Option (List UInt8)) :
    (g.setPipe p rest).output = g.output ∧ (g.setPipe p rest).written = g.written ∧
      (g.setPipe p rest).terminal = g.terminal ∧ (g.setPipe p rest).incoming = g.incoming ∧
      (g.setPipe p rest).control = g.control ∧ (g.setPipe p rest).cancels = g.cancels := by
  cases p <;> exact ⟨rfl, rfl, rfl, rfl, rfl, rfl⟩

end Pipes

section Invariant

/-- What surrounds a run: libraries, version of the request, the bytes of the host, and what
the process prints to each pipe. -/
structure Setting where
  serde : Serde
  version : Version
  host : List UInt8
  printed : Pipe → List UInt8

/-- The frame that reports how the root process ended. -/
def Setting.exited (c : Setting) (status : ExitStatus) : OutFrame where
  kind := 1
  payload := c.serde.toVec (GuestMessage.exited c.version status).json

/-- The exit is framed behind the whole output of a process tree that is clean. -/
structure Setting.Ended (c : Setting) (g : Guest) (frames : List OutFrame) : Prop where
  frames : ∃ data status, frames = data ++ [c.exited status] ∧ (∀ f ∈ data, f.Carries) ∧
    (c.exited status).payload.length ≤ chunk
  closed : ∀ p, g.pipe p = none
  clean : g.tree.clean = true

/-- The frames to the host. -/
structure Setting.Frames (c : Setting) (g : Guest) (frames : List OutFrame) : Prop where
  buffered : Buffered g.output g.written frames
  /-- What the process has printed is framed, or the pipe has yet to deliver it. -/
  delivered : ∀ p, c.printed p = payloads p.kind frames ++ (g.pipe p).getD []
  running : g.terminal = false → ∀ f ∈ frames, f.Carries
  ended : g.terminal = true → c.Ended g frames

/-- What of the host's bytes has been read, and the cancel requests recognised in it. -/
structure Setting.Heard (c : Setting) (g : Guest) (received : List UInt8) : Prop where
  host : c.host = received ++ g.incoming
  reading : g.control.Reading
  drained : (cancelFrames c.serde c.version).drain received =
    (List.replicate g.cancels (), .waiting g.control.partialFrame)

/-- The invariant of the loop. -/
structure Setting.Sound (c : Setting) (g : Guest) : Prop where
  sends : ∃ frames, c.Frames g frames
  hears : ∃ received, c.Heard g received

/-- The bytes read so far end in what is no cancel frame. -/
def Setting.Malformed (c : Setting) (error : IoError) (g : Guest) : Prop :=
  ∃ received, c.host = received ++ g.incoming ∧
    (cancelFrames c.serde c.version).drain received = (List.replicate g.cancels (), .failed error)

/-- What holds when a run stops early. -/
structure Setting.Stops (c : Setting) (reason : Stop) (g : Guest) : Prop where
  sends : ∃ frames, c.Frames g frames
  hears : (∃ received, c.Heard g received) ∨ ∃ error, reason = .error error ∧ c.Malformed error g

variable {c : Setting} {g g' : Guest} {p : Pipe} {frames : List OutFrame} {received : List UInt8}

theorem Setting.Sound.stops (reason : Stop) (g : Guest) (h : c.Sound g) : c.Stops reason g :=
  ⟨h.sends, Or.inl h.hears⟩

theorem Setting.Heard.congr (h : c.Heard g received) (hincoming : g'.incoming = g.incoming)
    (hcontrol : g'.control = g.control) (hcancels : g'.cancels = g.cancels) :
    c.Heard g' received := by
  constructor
  · rw [hincoming, h.host]
  · rw [hcontrol]
    exact h.reading
  · rw [hcontrol, hcancels, h.drained]

/-- The frames depend on the buffer, the pipes and whether the process tree is clean. -/
theorem Setting.Frames.congr (h : c.Frames g frames)
    (hbuffered : Buffered g'.output g'.written frames) (hpipe : ∀ p, g'.pipe p = g.pipe p)
    (hterminal : g'.terminal = g.terminal) (hclean : g.tree.clean = true → g'.tree.clean = true) :
    c.Frames g' frames := by
  constructor
  · exact hbuffered
  · intro p
    rw [hpipe p]
    exact h.delivered p
  · rw [hterminal]
    exact h.running
  · intro hended
    rw [hterminal] at hended
    obtain ⟨hframes, hclosed, htree⟩ := h.ended hended
    refine ⟨hframes, ?_, hclean htree⟩
    intro p
    rw [hpipe p, hclosed p]

/-- Standard input of the process and the order of the pipes do not matter. -/
theorem Setting.Sound.around (h : c.Sound g) (sent : ℕ) (stdin first : Bool) :
    c.Sound { g with inputSent := sent, stdin := stdin, stderrFirst := first } := by
  obtain ⟨⟨frames, hframes⟩, received, hheard⟩ := h
  constructor
  · exact ⟨frames, hframes.congr hframes.buffered (fun p => by cases p <;> rfl) rfl id⟩
  · exact ⟨received, hheard.congr rfl rfl rfl⟩

/-- A process tree that is clean stays clean. -/
theorem Setting.Sound.tree (h : c.Sound g) {tree : CommandTree}
    (hclean : g.tree.clean = true → tree.clean = true) : c.Sound { g with tree := tree } := by
  obtain ⟨⟨frames, hframes⟩, received, hheard⟩ := h
  constructor
  · exact ⟨frames, hframes.congr hframes.buffered (fun p => by cases p <;> rfl) rfl hclean⟩
  · exact ⟨received, hheard.congr rfl rfl rfl⟩

/-- What outlives the connection does not matter either. -/
theorem Setting.Sound.runtime (h : c.Sound g) (runtime : Runtime) :
    c.Sound { g with runtime := runtime } := by
  obtain ⟨⟨frames, hframes⟩, received, hheard⟩ := h
  constructor
  · exact ⟨frames, hframes.congr hframes.buffered (fun p => by cases p <;> rfl) rfl id⟩
  · exact ⟨received, hheard.congr rfl rfl rfl⟩

/-- The buffer is written to the host. -/
theorem Setting.Sound.output (h : c.Sound g) {output : Output} {written : List UInt8}
    (hbuffered : ∀ frames, Buffered g.output g.written frames → Buffered output written frames) :
    c.Sound { g with output := output, written := written } := by
  obtain ⟨⟨frames, hframes⟩, received, hheard⟩ := h
  constructor
  · exact ⟨frames, hframes.congr (hbuffered frames hframes.buffered)
      (fun p => by cases p <;> rfl) rfl id⟩
  · exact ⟨received, hheard.congr rfl rfl rfl⟩

/-- A pipe that has delivered everything is closed. -/
theorem Setting.Sound.closed (h : c.Sound g) (hpipe : g.pipe p = some []) :
    c.Sound (g.setPipe p none) := by
  obtain ⟨⟨frames, hframes⟩, received, hheard⟩ := h
  obtain ⟨houtput, hwritten, hterminal, hincoming, hcontrol, hcancels⟩ :=
    setPipe_unchanged g p none
  constructor
  · refine ⟨frames, ?_, ?_, ?_, ?_⟩
    · rw [houtput, hwritten]
      exact hframes.buffered
    · intro q
      have hq := hframes.delivered q
      by_cases hqp : q = p
      · rw [hqp, hpipe] at hq
        rw [hqp, pipe_setPipe, hq]
        rfl
      · rw [pipe_setPipe_of_ne hqp, hq]
    · rw [hterminal]
      exact hframes.running
    · intro hended
      rw [hterminal] at hended
      have hclosed := (hframes.ended hended).closed p
      rw [hpipe] at hclosed
      cases hclosed
  · exact ⟨received, hheard.congr hincoming hcontrol hcancels⟩

theorem carries_append {f : OutFrame} (h : ∀ f ∈ frames, f.Carries) (hf : f.Carries) :
    ∀ f' ∈ frames ++ [f], f'.Carries := by
  intro f' hmem
  rcases List.mem_append.mp hmem with hmem | hmem
  · exact h f' hmem
  · rw [List.mem_singleton.mp hmem]
    exact hf

/-- What a pipe delivers is framed. -/
theorem Setting.Sound.framed (h : c.Sound g) (hrunning : g.terminal = false)
    (hempty : g.output.length = 0) {data rest : List UInt8}
    (hpipe : g.pipe p = some (data ++ rest)) (hpos : 0 < data.length)
    (hle : data.length ≤ chunk) :
    c.Sound { g.setPipe p (some rest) with
      output := (g.output.payload data).header p.kind data.length } := by
  obtain ⟨⟨frames, hframes⟩, received, hheard⟩ := h
  obtain ⟨-, hwritten, hterminal, hincoming, hcontrol, hcancels⟩ :=
    setPipe_unchanged g p (some rest)
  have hcarries : OutFrame.Carries ⟨p.kind, data⟩ := by
    refine ⟨?_, hpos, hle⟩
    cases p
    · exact Or.inl rfl
    · exact Or.inr rfl
  have hbuffered : Buffered ((g.output.payload data).header p.kind data.length) g.written
      (frames ++ [⟨p.kind, data⟩]) :=
    hframes.buffered.fill (f := ⟨p.kind, data⟩) hempty hle
  constructor
  · refine ⟨frames ++ [⟨p.kind, data⟩], ?_, ?_, ?_, ?_⟩
    · dsimp only
      rw [hwritten]
      exact hbuffered
    · intro q
      have hq := hframes.delivered q
      change _ = _ ++ ((g.setPipe p (some rest)).pipe q).getD []
      by_cases hqp : q = p
      · rw [hqp, hpipe] at hq
        rw [hqp, pipe_setPipe, hq, payloads_append_same, List.append_assoc]
        rfl
      · rw [pipe_setPipe_of_ne hqp, hq, payloads_append_of_ne _ (kind_ne hqp)]
    · intro _
      exact carries_append (hframes.running hrunning) hcarries
    · intro hended
      dsimp only at hended
      rw [hterminal, hrunning] at hended
      cases hended
  · exact ⟨received, hheard.congr hincoming hcontrol hcancels⟩

/-- The exit is framed, and after it nothing. -/
theorem Setting.Sound.exited (h : c.Sound g) (hrunning : g.terminal = false)
    (hempty : g.output.length = 0) (hclosed : ∀ p, g.pipe p = none)
    (hclean : g.tree.clean = true) {status : ExitStatus}
    (hle : (c.exited status).payload.length ≤ chunk) :
    c.Sound { g with
      output := (g.output.payload (c.exited status).payload).header 1
        (c.exited status).payload.length
      terminal := true } := by
  obtain ⟨⟨frames, hframes⟩, received, hheard⟩ := h
  have hcarries := hframes.running hrunning
  have hbuffered : Buffered ((g.output.payload (c.exited status).payload).header 1
      (c.exited status).payload.length) g.written (frames ++ [c.exited status]) :=
    hframes.buffered.fill (f := c.exited status) hempty hle
  constructor
  · refine ⟨frames ++ [c.exited status], hbuffered, ?_, ?_, ?_⟩
    · intro p
      have hp := hframes.delivered p
      have hkind : (1 : UInt8) ≠ p.kind := by
        cases p <;> decide
      rw [payloads_append_of_ne _ hkind, hp]
      cases p <;> rfl
    · intro hfalse
      cases hfalse
    · intro _
      exact ⟨⟨frames, status, rfl, hcarries, hle⟩,
        fun p => (by cases p <;> rfl : _ = g.pipe p).trans (hclosed p), hclean⟩
  · exact ⟨received, hheard.congr rfl rfl rfl⟩

end Invariant

section Pieces

variable {c : Setting} {serde : Serde} {version : Version} {α : Type} {P : Guest → Prop}
  {stop : Stop → Guest → Prop}

/-- A call that changes nothing keeps everything. -/
theorem call_triple (hstop : ∀ reason g, P g → stop reason g) (f : Answer → Except IoError α) :
    Triple P (call f) (fun _ => P) stop := by
  unfold call
  apply Triple.ask
  · intro g hg
    exact hstop .waiting g hg
  · intro answer g hg
    cases f answer with
    | ok value => exact hg
    | error error => exact hstop (.error error) g hg

theorem waitChild_triple (hstop : ∀ reason g, P g → stop reason g)
    (hrecord : ∀ happening g, P g → P (record happening g)) (target : Target) (fuel : ℕ) :
    Triple P (waitChild target fuel) (fun _ => P) stop := by
  unfold waitChild
  refine Triple.seq (show Triple P _ (fun _ => P) stop from
    Triple.repeatFor ?_ (hstop .waiting) fuel) ?_
  · refine (call_triple hstop _).weaken ?_
    intro outcome g hg
    cases outcome <;> exact hg
  · intro waited
    refine Triple.seq (Triple.update_keep (hrecord _)) ?_
    intro _
    exact Triple.pure fun _ hs => hs

theorem record_sound (happening : Happening) (g : Guest) (h : c.Sound g) :
    c.Sound (record happening g) :=
  h.runtime _

theorem setStatus_sound (status : ExitStatus) (g : Guest) (h : c.Sound g) :
    c.Sound (setStatus status g) :=
  h.tree id

theorem rootExited_triple (fuel : ℕ) :
    Triple c.Sound (rootExited fuel) (fun _ => c.Sound) c.Stops := by
  unfold rootExited
  apply Triple.view_bind
  intro g hg
  refine Triple.at_state ?_ hg
  apply Triple.ite
  · intro _
    exact Triple.pure fun _ hs => hs
  · intro _
    refine Triple.seq (waitChild_triple Setting.Sound.stops record_sound .root fuel) ?_
    intro waited
    cases waited with
    | child root status =>
      refine Triple.seq (Triple.update_keep (setStatus_sound status)) ?_
      intro _
      exact Triple.pure fun _ hs => hs
    | none => exact Triple.pure fun _ hs => hs
    | noChildren => exact Triple.throw fun s hs => hs.stops _ s
    | failed => exact Triple.throw fun s hs => hs.stops _ s

theorem reapTurn_triple (fuel : ℕ) :
    Triple c.Sound (reapTurn fuel) (Turn c.Sound fun _ => c.Sound) fun _ => c.Sound := by
  unfold reapTurn checkDeadline
  refine Triple.seq (call_triple (fun _ _ hs => hs) _) ?_
  intro _
  refine Triple.seq (waitChild_triple (fun _ _ hs => hs) record_sound .any fuel) ?_
  intro waited
  cases waited with
  | child root status =>
    apply Triple.ite
    · intro _
      refine Triple.seq (Triple.update_keep (setStatus_sound status)) ?_
      intro _
      exact Triple.pure fun _ hs => hs
    · intro _
      exact Triple.pure fun _ hs => hs
  | none => exact Triple.pure fun _ hs => hs
  | noChildren =>
    apply Triple.view_bind
    intro g hg
    refine Triple.at_state ?_ hg
    apply Triple.ite
    · intro _
      exact Triple.throw fun _ hs => hs
    · intro _
      refine Triple.seq (Triple.update_keep fun s hs => hs.tree fun _ => rfl) ?_
      intro _
      exact Triple.pure fun _ hs => hs
  | failed => exact Triple.throw fun _ hs => hs

theorem cleanupTurn_triple (fuel : ℕ) :
    Triple c.Sound (cleanupTurn fuel) (Turn c.Sound fun _ => c.Sound) fun _ => c.Sound := by
  unfold cleanupTurn killing checkDeadline
  refine Triple.seq (call_triple (fun _ _ hs => hs) _) ?_
  intro _
  refine Triple.seq (Triple.repeatFor (reapTurn_triple fuel) (fun _ hs => hs) fuel) ?_
  intro done
  apply Triple.ite
  · intro _
    exact Triple.pure fun _ hs => hs
  · intro _
    refine Triple.seq (call_triple (fun _ _ hs => hs) _) ?_
    intro _
    exact Triple.pure fun _ hs => hs

theorem cleanupInner_triple (fuel : ℕ) :
    Triple c.Sound (cleanupInner fuel) (fun _ => c.Sound) (fun _ => c.Sound) := by
  unfold cleanupInner
  apply Triple.view_bind
  intro g hg
  refine Triple.at_state ?_ hg
  apply Triple.ite
  · intro _
    exact Triple.pure fun _ hs => hs
  · intro _
    have hloop : Triple c.Sound (repeatFor .waiting (cleanupTurn fuel) fuel) (fun _ => c.Sound)
        (fun _ => c.Sound) :=
      Triple.repeatFor (cleanupTurn_triple fuel) (fun _ hs => hs) fuel
    apply Triple.ite
    · intro _
      refine Triple.seq (call_triple (fun _ _ hs => hs) _) ?_
      intro _
      exact hloop
    · intro _
      exact hloop

/-- A failure to clean up says nothing about the bytes. -/
theorem cleanup_triple (fuel : ℕ) :
    Triple c.Sound (cleanup fuel) (fun _ => c.Sound) c.Stops := by
  have hinner : Triple c.Sound (attempt Stop.error? (cleanupInner fuel)) (fun _ => c.Sound)
      c.Stops := by
    refine Triple.attempt (cleanupInner_triple fuel) ?_ ?_
    · intro _ _ _ g hg
      exact hg
    · intro reason _ g hg
      exact hg.stops reason g
  unfold cleanup
  refine Triple.seq hinner ?_
  intro result
  cases result with
  | ok _ => exact Triple.update_keep (record_sound _)
  | error error =>
    refine Triple.seq (Triple.update_keep (record_sound _)) ?_
    intro _
    refine Triple.seq (Triple.update_keep fun g hg => hg.runtime _) ?_
    intro _
    exact Triple.throw fun g hg => hg.stops _ g

/-- The channel is taken for closed only when all of it has been read. -/
def Setting.Controlled (c : Setting) (event : ControlEvent) (g : Guest) : Prop :=
  c.Sound g ∧ (event = .disconnected → g.incoming = [])

/-- What a read returns besides nothing is at the front of what is available. -/
theorem reading_data {size : ℕ} {available data : List UInt8} {answer : Answer} (hsize : 0 < size)
    (h : reading size available answer = .data data) :
    data.length ≤ size ∧ available = data ++ available.drop data.length ∧
      (data = [] → available = []) := by
  cases answer with
  | moved n =>
    cases h
    have hlength : (available.take (min (max n 1) size)).length =
        min (min (max n 1) size) available.length := List.length_take
    refine ⟨by omega, ?_, ?_⟩
    · rw [hlength]
      nth_rewrite 1 [← List.take_append_drop (min (max n 1) size) available]
      congr 1
      rcases Nat.le_total (min (max n 1) size) available.length with hle | hle
      · rw [min_eq_left hle]
      · rw [min_eq_right hle, List.drop_of_length_le hle, List.drop_length]
    · intro hnil
      rw [hnil, List.length_nil] at hlength
      exact List.length_eq_zero_iff.mp (by omega)
  | interrupted => cases h
  | wouldBlock => cases h
  | brokenPipe => cases h
  | failed => cases h
  | child root status => cases h
  | noneReady => cases h
  | noChildren => cases h
  | late => cases h

/-- Bytes that continue the current frame and do not complete it. -/
theorem Setting.Heard.more {g : Guest} {received data : List UInt8} {control : Control}
    (h : c.Heard g received) (hdata : g.incoming = data ++ g.incoming.drop data.length)
    (hreading : control.Reading) (hleftover : control.partialFrame = g.control.partialFrame ++ data) :
    c.Heard { g with incoming := g.incoming.drop data.length, control := control }
      (received ++ data) := by
  constructor
  · rw [h.host, List.append_assoc, ← hdata]
  · exact hreading
  · dsimp only
    rw [drain_append, h.drained, Reader.resume]
    dsimp only
    rw [← hleftover, drain_of_more (next_partialFrame hreading), List.append_nil]

/-- Bytes that complete a cancel frame. -/
theorem Setting.Heard.cancel {g : Guest} {received data : List UInt8} {control : Control}
    (h : c.Heard g received) (hdata : g.incoming = data ++ g.incoming.drop data.length)
    (hreading : control.Reading) (hleftover : control.partialFrame = [])
    (hnext : (cancelFrames c.serde c.version).next (g.control.partialFrame ++ data) =
      .item () []) :
    c.Heard { g with
      incoming := g.incoming.drop data.length
      control := control
      cancels := g.cancels + 1 } (received ++ data) := by
  have hempty : (cancelFrames c.serde c.version).next control.partialFrame = .more :=
    next_partialFrame hreading
  rw [hleftover] at hempty
  constructor
  · rw [h.host, List.append_assoc, ← hdata]
  · exact hreading
  · dsimp only
    rw [drain_append, h.drained, Reader.resume]
    dsimp only
    rw [drain_of_item hnext, drain_of_more hempty, hleftover, List.replicate_succ']

/-- Bytes that show the current frame to be malformed. -/
theorem Setting.Heard.malformed {g : Guest} {received data : List UInt8} {error : IoError}
    (h : c.Heard g received) (hdata : g.incoming = data ++ g.incoming.drop data.length)
    (hnext : (cancelFrames c.serde c.version).next (g.control.partialFrame ++ data) =
      .error error) :
    c.Malformed error { g with incoming := g.incoming.drop data.length } := by
  refine ⟨received ++ data, ?_, ?_⟩
  · rw [h.host, List.append_assoc, ← hdata]
  · rw [drain_append, h.drained, Reader.resume]
    dsimp only
    rw [drain_of_error hnext, List.append_nil]

theorem controlTurn_triple :
    Triple c.Sound (controlTurn c.serde c.version) (Turn c.Sound c.Controlled) c.Stops := by
  unfold controlTurn
  apply Triple.ask
  · intro g hg
    exact hg.stops _ g
  · intro answer g hg
    obtain ⟨⟨frames, hframes⟩, received, hheard⟩ := hg
    have hg : c.Sound g := ⟨⟨frames, hframes⟩, received, hheard⟩
    cases hread : reading g.control.room g.incoming answer with
    | interrupted => exact hg
    | wouldBlock => exact ⟨hg, fun h => nomatch h⟩
    | failed => exact hg.stops _ g
    | data data =>
      obtain ⟨hsize, hdata, hnil⟩ := reading_data (room_pos hheard.reading) hread
      cases data with
      | nil => exact ⟨hg, fun _ => hnil rfl⟩
      | cons byte data =>
        have hreceived : g.control.Received c.serde c.version (byte :: data)
            (g.control.receive c.serde c.version (byte :: data)) :=
          receive_spec hheard.reading hsize
        dsimp only
        cases hreceive : g.control.receive c.serde c.version (byte :: data) with
        | error error =>
          rw [hreceive] at hreceived
          refine ⟨⟨frames, ?_⟩, Or.inr ⟨error, rfl, hheard.malformed hdata hreceived⟩⟩
          exact hframes.congr hframes.buffered (fun p => by cases p <;> rfl) rfl id
        | ok outcome =>
          obtain ⟨control, complete⟩ := outcome
          rw [hreceive] at hreceived
          cases complete with
          | false =>
            obtain ⟨hreading, hleftover⟩ := hreceived
            refine ⟨⟨frames, ?_⟩, _, hheard.more hdata hreading hleftover⟩
            exact hframes.congr hframes.buffered (fun p => by cases p <;> rfl) rfl id
          | true =>
            obtain ⟨hreading, hleftover, hnext⟩ := hreceived
            refine ⟨⟨⟨frames, ?_⟩, _, hheard.cancel hdata hreading hleftover hnext⟩, ?_⟩
            · exact hframes.congr hframes.buffered (fun p => by cases p <;> rfl) rfl id
            · intro h
              cases h

theorem controlRead_triple (fuel : ℕ) :
    Triple c.Sound (controlRead c.serde c.version fuel) c.Controlled c.Stops :=
  Triple.repeatFor controlTurn_triple (Setting.Sound.stops _) fuel

theorem writing_moved {size n : ℕ} {answer : Answer} (h : writing size answer = .moved n) :
    n ≤ size := by
  cases answer with
  | moved m =>
    cases h
    exact min_le_right m size
  | interrupted => cases h
  | wouldBlock => cases h
  | brokenPipe => cases h
  | failed => cases h
  | child root status => cases h
  | noneReady => cases h
  | noChildren => cases h
  | late => cases h

theorem flushTurn_triple :
    Triple c.Sound flushTurn (Turn c.Sound fun _ => c.Sound) c.Stops := by
  unfold flushTurn
  apply Triple.view_bind
  intro g hg
  apply Triple.ite
  · intro hless
    apply Triple.ask
    · intro s hs
      rw [hs]
      exact hg.stops _ g
    · intro answer s hs
      rw [hs]
      cases hwrite : writing (g.output.length - g.output.sent) answer with
      | moved n =>
        have hn := writing_moved hwrite
        cases n with
        | zero => exact hg.stops _ g
        | succ n => exact hg.output fun frames hbuffered => hbuffered.write hless hn
      | interrupted => exact hg
      | wouldBlock => exact hg
      | brokenPipe => exact hg.stops _ g
      | failed => exact hg.stops _ g
  · intro hdone
    have hflushed : Triple (· = g) (update fun g =>
        { g with output := { g.output with length := 0, sent := 0 } } : Sys PUnit)
        (fun _ => c.Sound) c.Stops := by
      apply Triple.update
      intro s hs
      rw [hs]
      exact hg.output fun frames hbuffered => hbuffered.flushed hdone
    refine Triple.seq hflushed ?_
    intro _
    exact Triple.pure fun _ hs => hs

theorem flush_triple (fuel : ℕ) : Triple c.Sound (flush fuel) (fun _ => c.Sound) c.Stops :=
  Triple.repeatFor flushTurn_triple (Setting.Sound.stops _) fuel

theorem closeStdin_triple : Triple c.Sound closeStdin (fun _ => c.Sound) c.Stops :=
  Triple.update_keep fun g hg => hg.around g.inputSent false g.stderrFirst

theorem writeStdin_triple : Triple c.Sound writeStdin (fun _ => c.Sound) c.Stops := by
  unfold writeStdin
  apply Triple.view_bind
  intro g hg
  refine Triple.at_state ?_ hg
  apply Triple.ite
  · intro _
    apply Triple.ask
    · intro s hs
      exact hs.stops _ s
    · intro answer s hs
      cases writing (s.input.length - s.inputSent) answer with
      | moved n => exact hs.around _ _ _
      | interrupted => exact hs
      | wouldBlock => exact hs
      | brokenPipe => exact hs.around _ _ _
      | failed => exact hs.stops _ s
  · intro _
    exact Triple.pure fun _ hs => hs

/-- Frames may still be filled. -/
structure Setting.Running (c : Setting) (g : Guest) : Prop where
  sound : c.Sound g
  running : g.terminal = false

theorem pipe_triple (p : Pipe) : Triple c.Running (pipe p) (fun _ => c.Running) c.Stops := by
  unfold pipe
  apply Triple.view_bind
  intro g hg
  apply Triple.ite
  · intro _
    exact Triple.at_state (Triple.pure fun _ hs => hs) hg
  · intro hempty
    have hempty : g.output.length = 0 := not_not.mp hempty
    cases hpipe : g.pipe p with
    | none => exact Triple.at_state (Triple.pure fun _ hs => hs) hg
    | some rest =>
      apply Triple.ask
      · intro s hs
        rw [hs]
        exact hg.sound.stops _ g
      · intro answer s hs
        rw [hs]
        cases hread : reading chunk rest answer with
        | interrupted => exact hg
        | wouldBlock => exact hg
        | failed => exact hg.sound.stops _ g
        | data data =>
          obtain ⟨hsize, hdata, hnil⟩ := reading_data (by decide) hread
          have hterminal := (setPipe_unchanged g p none).2.2.1
          cases data with
          | nil =>
            rw [hnil rfl] at hpipe
            exact ⟨hg.sound.closed hpipe, hterminal.trans hg.running⟩
          | cons byte data =>
            rw [hdata] at hpipe
            have hterminal := (setPipe_unchanged g p (some (rest.drop (data.length + 1)))).2.2.1
            exact ⟨hg.sound.framed hg.running hempty hpipe (Nat.succ_pos _) hsize,
              hterminal.trans hg.running⟩

theorem pipes_triple : Triple c.Running pipes (fun _ => c.Running) c.Stops := by
  unfold pipes
  apply Triple.view_bind
  intro g hg
  refine Triple.at_state ?_ hg
  apply Triple.ite
  · intro _
    exact Triple.seq (pipe_triple .stderr) fun _ => pipe_triple .stdout
  · intro _
    exact Triple.seq (pipe_triple .stdout) fun _ => pipe_triple .stderr

/-- The exit is framed in two steps. -/
theorem exited_triple {g : Guest} (hg : c.Running g) (hempty : g.output.length = 0)
    (hclosed : ∀ p, g.pipe p = none) (hclean : g.tree.clean = true) :
    Triple (· = g) (exited c.serde c.version)
      (fun _ s => c.Sound { s with terminal := true }) c.Stops := by
  unfold exited
  apply Triple.view_bind
  intro s hs
  rw [hs]
  cases g.tree.status with
  | none =>
    apply Triple.throw
    intro s hs
    rw [hs]
    exact hg.sound.stops _ g
  | some status =>
    apply Triple.ite
    · intro _
      apply Triple.throw
      intro s hs
      rw [hs]
      exact hg.sound.stops _ g
    · intro hfits
      apply Triple.update
      intro s hs
      rw [hs]
      exact hg.sound.exited hg.running hempty hclosed hclean (not_lt.mp hfits)

theorem finish_triple :
    Triple c.Running (finish c.serde c.version) (fun _ => c.Sound) c.Stops := by
  unfold finish
  apply Triple.view_bind
  intro g hg
  apply Triple.ite
  · intro hfinish
    obtain ⟨hclean, hstdout, hstderr, hempty⟩ := hfinish
    have hclosed : ∀ p, g.pipe p = none := by
      intro p
      cases p with
      | stdout => exact hstdout
      | stderr => exact hstderr
    refine Triple.bind (exited_triple hg hempty hclosed hclean) ?_
    intro _
    exact Triple.update fun s hs => hs
  · intro _
    exact Triple.at_state (Triple.pure fun s hs => hs.sound) hg

theorem fillOutput_triple :
    Triple c.Running (fillOutput c.serde c.version) (fun _ => c.Sound) c.Stops := by
  unfold fillOutput
  refine Triple.seq pipes_triple ?_
  intro _
  refine Triple.seq (Triple.update_keep ?_) ?_
  · intro g hg
    exact ⟨hg.sound.around g.inputSent g.stdin (!g.stderrFirst), hg.running⟩
  · intro _
    exact finish_triple

/-- How a run ends without an error. -/
structure Setting.Ends (c : Setting) (ending : RunEnd) (g : Guest) : Prop where
  sound : c.Sound g
  disconnected : ending = .disconnected → g.incoming = []
  finished : ending = .finished → g.terminal = true ∧ g.output.length = 0

theorem watchTree_triple (fuel : ℕ) :
    Triple c.Sound (watchTree fuel) (fun _ => c.Sound) c.Stops := by
  unfold watchTree
  apply Triple.view_bind
  intro g hg
  refine Triple.at_state ?_ hg
  apply Triple.ite
  · intro _
    refine Triple.seq (rootExited_triple fuel) ?_
    intro hasExited
    apply Triple.ite
    · intro _
      exact Triple.seq closeStdin_triple fun _ => cleanup_triple fuel
    · intro _
      exact Triple.pure fun _ hs => hs
  · intro _
    exact Triple.pure fun _ hs => hs

theorem fillEmpty_triple :
    Triple c.Sound (fillEmpty c.serde c.version) (fun _ => c.Sound) c.Stops := by
  unfold fillEmpty
  apply Triple.view_bind
  intro g hg
  apply Triple.ite
  · intro hfill
    exact Triple.at_state fillOutput_triple ⟨hg, hfill.1⟩
  · intro _
    exact Triple.at_state (Triple.pure fun _ hs => hs) hg

theorem moveBytes_triple (fuel : ℕ) :
    Triple c.Sound (moveBytes c.serde c.version fuel) (Turn c.Sound c.Ends) c.Stops := by
  unfold moveBytes
  refine Triple.seq (flush_triple fuel) ?_
  intro _
  apply Triple.view_bind
  intro g hg
  apply Triple.ite
  · intro hfinished
    apply Triple.pure
    intro s hs
    rw [hs]
    exact ⟨hg, (fun h => nomatch h), fun _ => hfinished⟩
  · intro _
    refine Triple.at_state ?_ hg
    refine Triple.seq writeStdin_triple ?_
    intro _
    refine Triple.seq fillEmpty_triple ?_
    intro _
    refine Triple.seq (call_triple Setting.Sound.stops _) ?_
    intro _
    exact Triple.pure fun _ hs => hs

theorem turn_triple (fuel : ℕ) :
    Triple c.Sound (turn c.serde c.version fuel) (Turn c.Sound c.Ends) c.Stops := by
  have hrest : Triple c.Sound (do
      watchTree fuel
      moveBytes c.serde c.version fuel) (Turn c.Sound c.Ends) c.Stops :=
    Triple.seq (watchTree_triple fuel) fun _ => moveBytes_triple fuel
  unfold turn
  refine Triple.bind (controlRead_triple fuel) ?_
  intro event
  cases event with
  | disconnected =>
    apply Triple.pure
    intro g hg
    exact ⟨hg.1, fun _ => hg.2 rfl, fun h => nomatch h⟩
  | cancel =>
    have hcleanup : Triple c.Sound (do
        closeStdin
        let result ← cleanup fuel
        watchTree fuel
        moveBytes c.serde c.version fuel) (Turn c.Sound c.Ends) c.Stops :=
      Triple.seq closeStdin_triple fun _ => Triple.seq (cleanup_triple fuel) fun _ => hrest
    exact hcleanup.strengthen fun g hg => hg.1
  | pending => exact hrest.strengthen fun g hg => hg.1

theorem run_triple (fuel : ℕ) :
    Triple c.Sound (run c.serde c.version fuel) c.Ends c.Stops := by
  unfold run nonblocking
  refine Triple.seq (call_triple Setting.Sound.stops _) ?_
  intro _
  refine Triple.seq (call_triple Setting.Sound.stops _) ?_
  intro _
  refine Triple.seq (call_triple Setting.Sound.stops _) ?_
  intro _
  refine Triple.seq (call_triple Setting.Sound.stops _) ?_
  intro _
  exact Triple.repeatFor (turn_triple fuel) (Setting.Sound.stops _) fuel

end Pieces

section Runs

/-- The guest at the start of a run. -/
def Setting.start (c : Setting) (input : List UInt8) : Guest where
  incoming := c.host
  input := input
  stdout := some (c.printed .stdout)
  stderr := some (c.printed .stderr)

/-- What is known of the frames that have been written, whole or in part. -/
structure Setting.Written (c : Setting) (g : Guest) (frames : List OutFrame) : Prop where
  bytes : g.written <+: stream frames
  wellFormed : ∀ f ∈ frames, f.kind ∈ [1, 2, 3] ∧ f.payload.length ≤ maxFrame
  payloads : ∀ p, payloads p.kind frames <+: c.printed p
  /-- An exited frame is the last one, behind the whole output of a clean process tree. -/
  exited : ∀ f ∈ frames, f.kind = 1 → ∃ data status, frames = data ++ [c.exited status] ∧
    (∀ f' ∈ data, f'.kind ≠ 1) ∧ g.stdout = none ∧ g.stderr = none ∧ g.tree.clean = true

variable {c : Setting} {g : Guest} {frames : List OutFrame} {f : OutFrame}

theorem carries_wellFormed (h : f.Carries) :
    f.kind ∈ [1, 2, 3] ∧ f.kind ≠ 1 ∧ f.payload.length ≤ maxFrame := by
  have hle := h.le
  have hmax : chunk ≤ maxFrame := by decide
  rcases h.kind with hkind | hkind
  · rw [hkind]
    exact ⟨by decide, by decide, by omega⟩
  · rw [hkind]
    exact ⟨by decide, by decide, by omega⟩

theorem Setting.Frames.written (h : c.Frames g frames) : c.Written g frames := by
  have hpayloads : ∀ p, GuestLoop.payloads p.kind frames <+: c.printed p := by
    intro p
    rw [h.delivered p]
    exact List.prefix_append _ _
  cases hterminal : g.terminal with
  | false =>
    have hcarries := h.running hterminal
    refine ⟨h.buffered.written_prefix, ?_, hpayloads, ?_⟩
    · intro f hf
      obtain ⟨hkind, -, hle⟩ := carries_wellFormed (hcarries f hf)
      exact ⟨hkind, hle⟩
    · intro f hf hexited
      obtain ⟨-, hne, -⟩ := carries_wellFormed (hcarries f hf)
      exact absurd hexited hne
  | true =>
    obtain ⟨⟨data, status, hframes, hcarries, hle⟩, hclosed, hclean⟩ := h.ended hterminal
    have hmax : chunk ≤ maxFrame := by decide
    refine ⟨h.buffered.written_prefix, ?_, hpayloads, ?_⟩
    · intro f hf
      rw [hframes] at hf
      rcases List.mem_append.mp hf with hf | hf
      · obtain ⟨hkind, -, hle⟩ := carries_wellFormed (hcarries f hf)
        exact ⟨hkind, hle⟩
      · rw [List.mem_singleton.mp hf]
        exact ⟨List.mem_cons_self, by omega⟩
    · intro _ _ _
      refine ⟨data, status, hframes, ?_, hclosed .stdout, hclosed .stderr, hclean⟩
      intro f' hf'
      exact (carries_wellFormed (hcarries f' hf')).2.1

/-- When the exit has been written, so has been the whole output. -/
theorem Setting.Frames.finished (h : c.Frames g frames) (hterminal : g.terminal = true)
    (hempty : g.output.length = 0) :
    g.written = stream frames ∧ (∀ p, payloads p.kind frames = c.printed p) ∧
      ∃ f ∈ frames, f.kind = 1 := by
  obtain ⟨⟨data, status, hframes, -⟩, hclosed, -⟩ := h.ended hterminal
  refine ⟨(h.buffered.of_empty hempty).2, ?_, c.exited status, ?_, rfl⟩
  · intro p
    have hdelivered := h.delivered p
    rw [hclosed p] at hdelivered
    rw [hdelivered]
    exact (List.append_nil _).symm
  · rw [hframes]
    exact List.mem_append_right _ List.mem_cons_self

end Runs

end Sower.Vm.GuestLoop
