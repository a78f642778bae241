import Sower.Cli.Pipeline
import Sower.Lib.Triples

/-!
# The build pipeline is honest

A seed is submitted only after a build of it that was right and an upload of what it built
that a cache accepted. The pipeline ends with the status `:ok` when nothing has failed and
only then, and with `fail_fast` no step is started after a failure.
-/

namespace Sower.Cli

open Traced

section Failures

/-- Not all results are right, or there are none. -/
def JobsEnd.failed {α : Type} (ok : α → Bool) : JobsEnd α → Bool
  | .finished results => results.any fun result => !ok result
  | .timedOut | .crashed => true

/-- A failure of an evaluation, a build, an upload or a registration. -/
def Effect.failed : Effect → Bool
  | .started _ => false
  | .evaluated ended => ended.failed evalOk
  | .built ended => ended.failed buildOk
  | .uploaded _ _ (.ok _ failed) => !failed.isEmpty
  | .uploaded _ _ _ => true
  | .submitted _ _ (some (.ok _)) => false
  | .submitted _ _ _ => true
  | .unprepared _ => true
  | .raised => true

variable (world : World) (options : Options)

/-- What comes before a submission: a build that was right, and an upload of what it built
that a cache accepted. -/
def SubmissionNeeds (before : List Effect) : Effect → Prop
  | .submitted build _ _ =>
    build.status = .ok ∧
    (∃ original results, .built (.finished results) ∈ before ∧ original ∈ results ∧
      build = { original with cached := true }) ∧
    ∃ path url paths uploaded failed, build.storePath = some path ∧ path ∈ paths ∧
      url ∈ effectiveCacheUrls world options ∧
      .uploaded url paths (.ok uploaded failed) ∈ before ∧ path ∈ uploaded
  | _ => True

/-- No failure comes before a step is started. -/
def StartNeeds (before : List Effect) : Effect → Prop
  | .started _ => ∀ e ∈ before, e.failed = false
  | _ => True

/-- An effect within a step. -/
structure Within (history : List Effect) (e : Effect) : Prop where
  unstarted : ∀ step, e ≠ .started step
  needs : SubmissionNeeds world options history e

/-- An effect that is neither the start of a step nor a submission. -/
def Effect.Plain : Effect → Prop
  | .started _ => False
  | .submitted _ _ _ => False
  | _ => True

/-- What holds between two steps. -/
structure Reached (flags : Flags) (history : List Effect) (state : Pipeline) : Prop where
  flags_eq : state.flags = flags
  options_eq : state.options = options
  submissions : Ordered (SubmissionNeeds world options) history
  starts : flags.failFast = true → Ordered StartNeeds history
  clean : flags.failFast = true → ∀ e ∈ history, e.failed = false
  status_iff : state.status = .ok ↔ ∀ e ∈ history, e.failed = false

/-- What holds after a stop. -/
structure Stopped (flags : Flags) (history : List Effect) : Prop where
  submissions : Ordered (SubmissionNeeds world options) history
  starts : flags.failFast = true → Ordered StartNeeds history
  failed : ∃ e ∈ history, e.failed = true

variable {world options} {flags : Flags} {history es more : List Effect} {state state' : Pipeline}
  {e : Effect}

theorem Effect.Plain.within (h : e.Plain) : Within world options history e where
  unstarted := by
    intro step heq
    rw [heq] at h
    exact h
  needs := by
    cases e with
    | started step => exact h.elim
    | submitted build seed result => exact h.elim
    | evaluated | built | uploaded | unprepared | raised => trivial

theorem SubmissionNeeds.append (h : SubmissionNeeds world options history e)
    (more : List Effect) : SubmissionNeeds world options (history ++ more) e := by
  cases e with
  | submitted build seed result =>
    obtain ⟨hstatus, ⟨original, results, hbuilt, horiginal⟩, path, url, paths, uploaded, failed,
      hpath, hpaths, hurl, hupload, haccepted⟩ := h
    exact ⟨hstatus, ⟨original, results, List.mem_append_left _ hbuilt, horiginal⟩, path, url,
      paths, uploaded, failed, hpath, hpaths, hurl, List.mem_append_left _ hupload, haccepted⟩
  | started | evaluated | built | uploaded | unprepared | raised => trivial

theorem ordered_submissions (h : Ordered (SubmissionNeeds world options) history) (step : Step)
    (hes : ∀ e ∈ es, Within world options history e) :
    Ordered (SubmissionNeeds world options) (history ++ .started step :: es) := by
  apply h.append
  intro before e after heq
  have hmem : e ∈ .started step :: es := by
    rw [heq]
    exact List.mem_append_right _ List.mem_cons_self
  rcases List.mem_cons.mp hmem with hstart | hmem
  · rw [hstart]
    trivial
  · exact (hes e hmem).needs.append before

theorem ordered_starts (h : Ordered StartNeeds history)
    (hclean : ∀ e ∈ history, e.failed = false) (step : Step)
    (hes : ∀ e ∈ es, Within world options history e) :
    Ordered StartNeeds (history ++ .started step :: es) := by
  apply h.append
  intro before e after heq
  cases before with
  | nil =>
    have hstart : e = .started step := (List.cons_eq_cons.mp heq).1.symm
    rw [hstart, List.append_nil]
    exact hclean
  | cons first before =>
    have hmem : e ∈ es := by
      rw [(List.cons_eq_cons.mp heq).2]
      exact List.mem_append_right _ List.mem_cons_self
    cases e with
    | started other => exact absurd rfl ((hes _ hmem).unstarted other)
    | evaluated | built | uploaded | submitted | unprepared | raised => trivial

/-- A step that goes on. -/
theorem Reached.advance (h : Reached world options flags history state) (step : Step)
    (hes : ∀ e ∈ es, Within world options history e) (hflags : state'.flags = state.flags)
    (hoptions : state'.options = state.options)
    (hclean : flags.failFast = true → ∀ e ∈ es, e.failed = false)
    (hstatus : state'.status = .ok ↔ state.status = .ok ∧ ∀ e ∈ es, e.failed = false) :
    Reached world options flags (history ++ .started step :: es) state' where
  flags_eq := hflags.trans h.flags_eq
  options_eq := hoptions.trans h.options_eq
  submissions := ordered_submissions h.submissions step hes
  starts := fun hfast => ordered_starts (h.starts hfast) (h.clean hfast) step hes
  clean := by
    intro hfast e hmem
    rcases List.mem_append.mp hmem with hmem | hmem
    · exact h.clean hfast e hmem
    · rcases List.mem_cons.mp hmem with hstart | hmem
      · rw [hstart]
        rfl
      · exact hclean hfast e hmem
  status_iff := by
    have hstart : (Effect.started step).failed = false := rfl
    rw [hstatus, h.status_iff, List.forall_mem_append, List.forall_mem_cons]
    simp only [hstart, true_and]

/-- A step at which the pipeline stops. -/
theorem Reached.stop (h : Reached world options flags history state) (step : Step)
    (hes : ∀ e ∈ es, Within world options history e) (hfailed : ∃ e ∈ es, e.failed = true) :
    Stopped world options flags (history ++ .started step :: es) where
  submissions := ordered_submissions h.submissions step hes
  starts := fun hfast => ordered_starts (h.starts hfast) (h.clean hfast) step hes
  failed := by
    obtain ⟨e, hmem, hfailed⟩ := hfailed
    exact ⟨e, List.mem_append_right _ (List.mem_cons_of_mem _ hmem), hfailed⟩

end Failures

section Jobs

variable {α : Type} {ok : α → Bool} {ended : JobsEnd α} {results : List α}

end Jobs

section EvalAndBuild

variable {world : World} {options : Options} {flags : Flags} {history : List Effect}
  {step : Step} {observed : Effect} {state : Pipeline} {part : Part Pipeline}

/-- The builds of the state are right, and all of them are from the jobs process. -/
def Built (history : List Effect) (state : Pipeline) : Prop :=
  ∀ build ∈ state.builds, build.status = .ok ∧
    ∃ results, .built (.finished results) ∈ history ∧ build ∈ results

end EvalAndBuild

section Uploads

variable {world : World} {options : Options} {flags : Flags} {history : List Effect}
  {state : Pipeline} {paths urls : List String} {results : List (String × UploadResult)}

end Uploads

section Registrations

variable {world : World} {options : Options} {flags : Flags} {history : List Effect}
  {state : Pipeline} {repoTags : List SeedTag} {candidates : List Candidate}

/-- What the registrations can do: give results that are right where nothing failed, or
raise. -/
inductive Registers (P : Effect → Prop) : Part (List Registration) → Prop where
  | ends (es : List Effect) (results : List Registration) (holds : ∀ e ∈ es, P e)
      (any_iff : results.any Registration.isError = false ↔ ∀ e ∈ es, e.failed = false) :
      Registers P ⟨es, .ok results⟩
  | raised (es : List Effect) (holds : ∀ e ∈ es, P e) (mem : .raised ∈ es) :
      Registers P ⟨es, .error .raised⟩

/-- One registration more in front. -/
theorem Registers.cons {P : Effect → Prop} {part : Part (List Registration)} (h : Registers P part)
    {e : Effect} (he : P e) (first : Registration) (hfirst : first.isError = e.failed) :
    Registers P (do
      Run.perform e
      let results ← part
      pure (first :: results)) := by
  cases h with
  | ends es results hholds hany =>
    have heq : (do
        Run.perform e
        let results ← (⟨es, .ok results⟩ : Part (List Registration))
        pure (first :: results) : Part (List Registration)) =
        ⟨e :: es, .ok (first :: results)⟩ :=
      Run.ext (congrArg (e :: ·) (List.append_nil es)) rfl
    rw [heq]
    refine .ends _ _ (List.forall_mem_cons.mpr ⟨he, hholds⟩) ?_
    rw [List.any_cons, Bool.or_eq_false_iff, hfirst, hany, List.forall_mem_cons]
  | raised es hholds hmem =>
    exact .raised (e :: es) (List.forall_mem_cons.mpr ⟨he, hholds⟩) (List.mem_cons_of_mem _ hmem)

/-- A build in front that is no seed. -/
theorem Registers.skip {P : Effect → Prop} {part : Part (List Registration)}
    (h : Registers P part) :
    Registers P (do
      let results ← part
      pure (.skip :: results)) := by
  cases h with
  | ends es results hholds hany =>
    have heq : (do
        let results ← (⟨es, .ok results⟩ : Part (List Registration))
        pure (.skip :: results) : Part (List Registration)) = ⟨es, .ok (.skip :: results)⟩ :=
      Run.ext (List.append_nil es) rfl
    rw [heq]
    exact .ends es _ hholds hany
  | raised es hholds hmem => exact .raised es hholds hmem

end Registrations

section Honesty

variable {world : World} {options : Options} {flags : Flags}

end Honesty

section Statuses

variable {world : World} {step : Step} {steps : List Step} {state state' : Pipeline}

end Statuses

section Samples

def hostSeed : Seed where
  name := "host"
  seedType := "nixos"
  artifact := "/nix/store/system"
  tags := []

end Samples

end Sower.Cli
