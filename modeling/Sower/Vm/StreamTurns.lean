import Sower.Vm.Streaming

/-!
# The streaming process's turns about commands

While a command is run, a message lets it go on, completes it, or ends the process. Only a
command that has been cancelled is reported as cancelled.
-/

namespace Sower.Vm

namespace Streaming

open Protocol

section Doings

variable {ε : Type}

/-- The report to the guard that an act is. -/
def Act.report? : Act ε → Option (Report ε)
  | .report sent => some sent
  | _ => none

/-- What a turn can do while a command is run: it goes on, the process ends, or the command is
done. `asked` is what a cancelled command needs to have happened. -/
inductive Io.Does (c : ℕ) (command : Option ℕ) (asked : Prop) (t : Io × List (Act ε)) : Prop
  | goes (hphase : t.1.phase = .receiving) (hcommand : t.1.command = command)
      (hcancelled : t.1.cancelled ≠ none → asked)
      (hreports : ∀ r ∈ t.2.filterMap (·.report?), r = .cancelCommand c .outputConsumerDown)
  | ends (hphase : t.1.phase = .returned ∨ t.1.phase = .crashed)
      (hreports : ∀ r ∈ t.2.filterMap (·.report?), ∃ failure, r = .finish failure)
  | completes (result : Except CommandError Result) (hphase : t.1.phase = .idle)
      (hreports : t.2.filterMap (·.report?) = [.commandFinished c result])
      (hresult : ∀ reason, result = .error (.cancelled reason) → asked)

variable {codec : Codec} {o : Oracle ε} {c : ℕ} {io : Io} {asked : Prop}

theorem does_finish (failure : Failure ε) {command : Option ℕ} :
    Io.Does c command asked (io.finish failure) := by
  refine .ends (Or.inl rfl) fun r hr => ⟨failure, ?_⟩
  exact List.mem_singleton.mp hr

theorem consume_does (hphase : io.phase = .receiving) (hasked : io.cancelled ≠ none → asked) :
    Io.Does c io.command asked (io.consume codec o c) := by
  induction hlength : io.buffer.length using Nat.strongRecOn generalizing io with
  | ind n ih =>
    cases hworker : io.worker with
    | some worker =>
      rw [Io.consume, if_pos (by rw [hworker]; rfl)]
      exact .goes hphase rfl hasked fun r hr => by cases hr
    | none =>
      cases hdecode : decodeFrame codec io.buffer with
      | more =>
        rw [consume_more hworker hdecode]
        split
        · exact .goes hphase rfl hasked fun r hr => by cases hr
        · exact .ends (Or.inr rfl) fun r hr => by cases hr
      | error reason =>
        rw [consume_error hworker hdecode]
        exact does_finish _
      | event e rest =>
        have hshorter := length_of_event hdecode
        rw [consume_event hworker hdecode]
        cases houtput : output? e with
        | some output =>
          obtain ⟨stream, bytes⟩ := output
          dsimp only
          split
          · exact @ih rest.length (by omega) { io with buffer := rest } hphase hasked rfl
          · exact .goes hphase rfl hasked fun r hr => by cases hr
        | none =>
          dsimp only
          cases e with
          | exited code signal =>
            refine .completes (io.result o.now code signal) rfl rfl ?_
            intro reason hresult
            apply hasked
            intro hcancelled
            unfold Io.result at hresult
            rw [hcancelled] at hresult
            cases hresult
          | guestError message =>
            exact .completes (.error (.guest message)) rfl rfl fun reason hresult => by cases hresult
          | ready contract => exact does_finish _
          | stdout bytes => cases houtput
          | stderr bytes => cases houtput

theorem cancel_does (hphase : io.phase = .receiving) (reason : Reason) (hasked : asked) :
    Io.Does c io.command asked (io.cancel codec o c reason) := by
  have hkilled : (io.worker.toList.map (@Act.kill ε)).filterMap (·.report?) = [] := by
    simp [List.filterMap_map, Act.report?]
  unfold Io.cancel
  split
  · exact .goes hphase rfl (fun _ => hasked) fun r hr => by cases hr
  · dsimp only
    split
    · split
      · have hconsumed : Io.Does c io.command asked
            (Io.consume codec o c { io with worker := none, cancelled := some reason }) :=
          @consume_does ε codec o c { io with worker := none, cancelled := some reason } asked hphase
            fun _ => hasked
        have hreports : ∀ acts : List (Act ε), (io.worker.toList.map (@Act.kill ε) ++
            Act.requestCancel :: acts).filterMap (·.report?) = acts.filterMap (·.report?) := by
          intro acts
          rw [List.filterMap_append, hkilled]
          rfl
        cases hconsumed with
        | goes hphase hcommand hcancelled hr =>
          exact .goes hphase hcommand hcancelled (by rw [hreports]; exact hr)
        | ends hphase hr => exact .ends hphase (by rw [hreports]; exact hr)
        | completes result hphase hr hresult =>
          exact .completes result hphase (by rw [hreports]; exact hr) hresult
      · rename_i error _
        refine .ends (Or.inl rfl) fun r hr => ⟨.cancelUnconfirmed error, ?_⟩
        rw [List.filterMap_append, hkilled] at hr
        exact List.mem_singleton.mp hr
    · refine .ends (Or.inl rfl) fun r hr => ⟨.cancelled reason, ?_⟩
      rw [List.filterMap_append, hkilled] at hr
      exact List.mem_singleton.mp hr

/-- Any message while a command is run. -/
theorem receiveOutput_does (hphase : io.phase = .receiving) (m : Msg ε) :
    Io.Does c io.command (io.cancelled ≠ none ∨ ∃ reason, m = .cancel c reason)
      (io.receiveOutput codec o c m) := by
  have hstays : Io.Does c io.command (io.cancelled ≠ none ∨ ∃ reason, m = .cancel c reason)
      ((io, []) : Io × List (Act ε)) :=
    .goes hphase rfl Or.inl fun r hr => by cases hr
  cases m with
  | tcp socket bytes =>
    unfold Io.receiveOutput
    dsimp only
    split
    · exact @consume_does ε codec o c { io with buffer := io.buffer ++ bytes } _ hphase Or.inl
    · exact hstays
  | tcpClosed socket =>
    unfold Io.receiveOutput
    dsimp only
    split
    · exact does_finish _
    · exact hstays
  | tcpError socket reason =>
    unfold Io.receiveOutput
    dsimp only
    split
    · exact does_finish _
    · exact hstays
  | outputDone worker =>
    unfold Io.receiveOutput
    dsimp only
    split
    · exact @consume_does ε codec o c { io with worker := none } _ hphase Or.inl
    · exact hstays
  | exit worker =>
    unfold Io.receiveOutput
    dsimp only
    split
    · exact .goes hphase rfl Or.inl fun r hr => List.mem_singleton.mp hr
    · exact hstays
  | cancel cancelled reason =>
    unfold Io.receiveOutput
    dsimp only
    split
    · rename_i hsame
      rw [hsame]
      exact cancel_does hphase reason (Or.inr ⟨reason, rfl⟩)
    · exact hstays
  | execute command request => exact hstays
  | other => exact hstays

/-- A command that is taken is run, or the process ends. -/
theorem execute_does (opening : Opening ε) (now : ℤ) (c : ℕ) (io : Io) :
    (io.execute opening now c).2.filterMap (·.report?) = [] ∧
      (io.execute opening now c).1.phase = .receiving ∧
      (io.execute opening now c).1.command = some c ∧
      (io.execute opening now c).1.cancelled = none ∨
    (io.execute opening now c).1.phase = .returned ∧
      ∃ failure, (io.execute opening now c).2.filterMap (·.report?) = [.finish failure] := by
  unfold Io.execute
  dsimp only
  split
  · exact Or.inl ⟨rfl, rfl, rfl, rfl⟩
  · exact Or.inr ⟨rfl, _, rfl⟩

end Doings

end Streaming

end Sower.Vm
