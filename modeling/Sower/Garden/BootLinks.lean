import Sower.Garden.Deployer
import Mathlib.Data.Finset.Card

/-!
# Links of the booted, the running and the activated system

The decision about a reboot follows three links into the store. Following
is stated here without any count, as the code recurs, and ends on every
graph of links. A component of a system is itself a link into the store,
so that two systems can share it.
-/

namespace Sower.Garden.Deployer

section BootLinks

variable (home : Path) (readLink : Path → LinkReading)

/-- One call of `resolve_symlink` with the links visited so far, without a
bound of the recursion. -/
inductive Resolution : Finset Path → Path → Except LinkError Path → Prop
  | inStore {visited path} :
      inStore path = true → Resolution visited path (.ok path)
  | symlinkLoop {visited path} :
      inStore path = false → path ∈ visited →
      Resolution visited path (.error (.symlinkLoop path))
  | symlinkDepthExceeded {visited path} :
      inStore path = false → path ∉ visited → 20 ≤ visited.card →
      Resolution visited path (.error (.symlinkDepthExceeded path))
  | followed {visited path target result} :
      inStore path = false → path ∉ visited → visited.card < 20 →
      readLink path = .target target →
      Resolution (insert path visited) (resolveLinkTarget home target path) result →
      Resolution visited path result
  | notALink {visited path} :
      inStore path = false → path ∉ visited → visited.card < 20 →
      readLink path = .notALink → Resolution visited path (.ok path)
  | unreadable {visited path reason} :
      inStore path = false → path ∉ visited → visited.card < 20 →
      readLink path = .failed reason →
      Resolution visited path (.error (.unreadable path reason))

/-- Counting the links that may still be read gives the result of the
recursion, on every graph of links. -/
theorem resolveSymlink_resolution (remaining : ℕ) (path : Path) (visited : List Path)
    (hnodup : visited.Nodup) (hcount : visited.length + remaining = 20) :
    Resolution home readLink visited.toFinset path
      (resolveSymlink home readLink remaining path visited) := by
  induction remaining generalizing path visited with
  | zero =>
    have hcard : visited.toFinset.card = visited.length := List.toFinset_card_of_nodup hnodup
    rw [resolveSymlink]
    split
    · exact .inStore ‹_›
    · have hout : inStore path = false := by simpa using ‹¬ inStore path = true›
      split
      · exact .symlinkLoop hout (by simpa using ‹path ∈ visited›)
      · exact .symlinkDepthExceeded hout (by simpa using ‹path ∉ visited›) (by omega)
  | succ remaining ih =>
    have hcard : visited.toFinset.card = visited.length := List.toFinset_card_of_nodup hnodup
    rw [resolveSymlink]
    split
    · exact .inStore ‹_›
    · have hout : inStore path = false := by simpa using ‹¬ inStore path = true›
      split
      · exact .symlinkLoop hout (by simpa using ‹path ∈ visited›)
      · have hfresh : path ∉ visited := ‹_›
        have hfresh' : path ∉ visited.toFinset := by simpa using hfresh
        have hroom : visited.toFinset.card < 20 := by omega
        cases hread : readLink path with
        | target target =>
          have hnext := ih (resolveLinkTarget home target path) (path :: visited)
            (List.nodup_cons.mpr ⟨hfresh, hnodup⟩) (by rw [List.length_cons]; omega)
          rw [List.toFinset_cons] at hnext
          exact .followed hout hfresh' hroom hread hnext
        | notALink => exact .notALink hout hfresh' hroom hread
        | failed reason => exact .unreadable hout hfresh' hroom hread

/-- The recursion has one result at most. -/
theorem Resolution.unique {visited : Finset Path} {path : Path}
    {first second : Except LinkError Path}
    (hfirst : Resolution home readLink visited path first)
    (hsecond : Resolution home readLink visited path second) : first = second := by
  induction hfirst with
  | followed hout hfresh hroom hread _ ih =>
    cases hsecond with
    | followed _ _ _ hread' hnext =>
      rw [hread] at hread'
      cases hread'
      exact ih hnext
    | _ => simp_all <;> omega
  | _ => cases hsecond <;> simp_all <;> omega

/-- Following a link and what it names, until a path that is no link. -/
inductive ResolvesTo : Path → Path → Prop
  | plain {path} : readLink path = .notALink → ResolvesTo path path
  | link {path target final} : readLink path = .target target →
      ResolvesTo (resolveLinkTarget home target path) final → ResolvesTo path final

/-- The same file behind both paths. Paths that lead to no file agree. -/
def SameResolved (first second : Path) : Prop :=
  ∀ final, ResolvesTo home readLink first final ↔ ResolvesTo home readLink second final

@[simp] theorem sameResolved_refl (path : Path) : SameResolved home readLink path path :=
  fun _ => Iff.rfl

/-- Boot-critical components of a system, each with the reason that names it. -/
def bootComponents : List (String × String) :=
  [("initrd", "initrd_changed"), ("kernel", "kernel_changed"),
    ("kernel-modules", "modules_changed")]

/-- What a reason says about the three systems. -/
def ReallyDiffers (profile current booted : Path) (reason : String) : Prop :=
  (reason = "system_changed" ∧ current ≠ profile) ∨
    ∃ component, (component, reason) ∈ bootComponents ∧
      ¬ SameResolved home readLink (current ++ [component]) (booted ++ [component])

/-- The three links lead to these systems. -/
structure SystemLinks (profile current booted : Path) : Prop where
  profile : resolvedSymlink home readLink ["nix", "var", "nix", "profiles", "system"] = .ok profile
  current : resolvedSymlink home readLink ["run", "current-system"] = .ok current
  booted : resolvedSymlink home readLink ["run", "booted-system"] = .ok booted

/-- Purpose of the reboot detection on one assignment of links. -/
structure DetectsReboot : Prop where
  terminates : ∀ path, ∃! result, Resolution home readLink ∅ path result
  follows : ∀ path, Resolution home readLink ∅ path (resolvedSymlink home readLink path)
  quiet_iff : ∀ profile current booted, SystemLinks home readLink profile current booted →
    (detectBootCriticalChangeReason home readLink = none ↔
      profile = current ∧ ∀ component reason, (component, reason) ∈ bootComponents →
        SameResolved home readLink (current ++ [component]) (booted ++ [component]))
  names : ∀ profile current booted, SystemLinks home readLink profile current booted →
    ∀ reason, detectBootCriticalChangeReason home readLink = some reason →
      ReallyDiffers home readLink profile current booted reason

/-- Every chain of links is followed to one result. -/
theorem resolvedSymlink_resolution (path : Path) :
    Resolution home readLink ∅ path (resolvedSymlink home readLink path) := by
  have h := resolveSymlink_resolution home readLink 20 path [] List.nodup_nil rfl
  simpa [resolvedSymlink] using h

variable {home readLink}

/-- A link resolves to what its target resolves to. -/
theorem resolvesTo_link_iff {path final : Path} {target : LinkTarget}
    (hread : readLink path = .target target) :
    ResolvesTo home readLink path final ↔
      ResolvesTo home readLink (resolveLinkTarget home target path) final := by
  constructor
  · intro h
    cases h with
    | plain hplain => simp [hread] at hplain
    | link hlink hrest =>
      rw [hread] at hlink
      cases hlink
      exact hrest
  · exact fun h => .link hread h

theorem detectBootCriticalChangeReason_of_links {profile current booted : Path}
    (links : SystemLinks home readLink profile current booted) :
    detectBootCriticalChangeReason home readLink = bootCriticalChange profile current booted := by
  unfold detectBootCriticalChangeReason
  rw [links.profile, links.current, links.booted]
  rfl

/-- Equal store paths are quiet, and a system that is not the booted one
always names its initrd. -/
theorem bootCriticalChange_eq (profile current booted : Path) :
    bootCriticalChange profile current booted =
      if current ≠ profile then some "system_changed"
      else if current ≠ booted then some "initrd_changed" else none := by
  have happend : ∀ part : String, (current ++ [part] ≠ booted ++ [part]) ↔ current ≠ booted := by
    intro part
    simp
  unfold bootCriticalChange
  simp only [happend]
  by_cases hbooted : current = booted <;> simp [hbooted]

theorem mem_bootComponents_initrd : ("initrd", "initrd_changed") ∈ bootComponents :=
  List.mem_cons_self

/-- Only a component whose own reason is the initrd's is the initrd. -/
theorem component_of_initrd_changed {component : String}
    (h : (component, "initrd_changed") ∈ bootComponents) : component = "initrd" := by
  simp [bootComponents] at h
  exact h

/-- The detection does what it is for unless the activated system runs, is
not the booted one, and shares its initrd with it. -/
theorem detectsReboot_iff (home : Path) (readLink : Path → LinkReading) :
    DetectsReboot home readLink ↔
      ∀ profile current booted, SystemLinks home readLink profile current booted →
        ¬ (current = profile ∧ current ≠ booted ∧
          SameResolved home readLink (current ++ ["initrd"]) (booted ++ ["initrd"])) := by
  constructor
  · rintro detects profile current booted links ⟨hprofile, hbooted, hsame⟩
    have hreason : detectBootCriticalChangeReason home readLink = some "initrd_changed" := by
      rw [detectBootCriticalChangeReason_of_links links, bootCriticalChange_eq]
      simp [hprofile, hprofile ▸ hbooted]
    rcases detects.names _ _ _ links _ hreason with ⟨hname, _⟩ | ⟨component, hmem, hdiffers⟩
    · exact absurd hname (by decide)
    · rw [component_of_initrd_changed hmem] at hdiffers
      exact hdiffers hsame
  · intro hshared
    have hfollows := resolvedSymlink_resolution home readLink
    constructor
    case terminates =>
      intro path
      exact ⟨_, hfollows path, fun other hother => hother.unique home readLink (hfollows path)⟩
    case follows => exact hfollows
    case quiet_iff =>
      intro profile current booted links
      rw [detectBootCriticalChangeReason_of_links links, bootCriticalChange_eq]
      constructor
      · intro hquiet
        have hprofile : current = profile := by
          by_contra hne
          simp [hne] at hquiet
        have hbooted : current = booted := by
          by_contra hne
          simp [hprofile, hprofile ▸ hne] at hquiet
        subst hbooted
        exact ⟨hprofile.symm, fun _ _ _ => sameResolved_refl _ _ _⟩
      · rintro ⟨hprofile, hsame⟩
        have hbooted : current = booted := by
          by_contra hne
          exact hshared _ _ _ links
            ⟨hprofile.symm, hne, hsame _ _ mem_bootComponents_initrd⟩
        simp [hprofile, hbooted]
    case names =>
      intro profile current booted links reason hreason
      rw [detectBootCriticalChangeReason_of_links links, bootCriticalChange_eq] at hreason
      by_cases hprofile : current = profile
      · by_cases hbooted : current = booted
        · simp [← hprofile, ← hbooted] at hreason
        · have hinitrd : reason = "initrd_changed" := by
            simpa [← hprofile, hbooted] using hreason.symm
          refine Or.inr ⟨"initrd", ?_, ?_⟩
          · rw [hinitrd]
            exact mem_bootComponents_initrd
          · exact fun hsame => hshared _ _ _ links ⟨hprofile, hbooted, hsame⟩
      · have hsystem : reason = "system_changed" := by simpa [hprofile] using hreason.symm
        exact Or.inl ⟨hsystem, hprofile⟩

end BootLinks

/-- A new generation is activated and runs; it shares initrd, kernel and
modules with the booted one. -/
def sharedKernelLinks : Path → LinkReading
  | ["nix", "var", "nix", "profiles", "system"] => .target ⟨false, ["system-2-link"]⟩
  | ["nix", "var", "nix", "profiles", "system-2-link"] =>
    .target ⟨true, ["nix", "store", "b-system"]⟩
  | ["run", "current-system"] => .target ⟨true, ["nix", "store", "b-system"]⟩
  | ["run", "booted-system"] => .target ⟨true, ["nix", "store", "a-system"]⟩
  | ["nix", "store", "a-system", component] => .target ⟨true, ["nix", "store", "boot", component]⟩
  | ["nix", "store", "b-system", component] => .target ⟨true, ["nix", "store", "boot", component]⟩
  | _ => .notALink

/-- Both generations' initrd links name one file. -/
theorem sharedKernelLinks_same :
    SameResolved [] sharedKernelLinks ["nix", "store", "b-system", "initrd"]
      ["nix", "store", "a-system", "initrd"] := by
  intro final
  have hcurrent : sharedKernelLinks ["nix", "store", "b-system", "initrd"] =
      .target ⟨true, ["nix", "store", "boot", "initrd"]⟩ := rfl
  have hbooted : sharedKernelLinks ["nix", "store", "a-system", "initrd"] =
      .target ⟨true, ["nix", "store", "boot", "initrd"]⟩ := rfl
  rw [resolvesTo_link_iff hcurrent, resolvesTo_link_iff hbooted]
  rfl

/-- A reboot is demanded for an initrd that is the booted one. -/
theorem shared_initrd_changed : ¬ DetectsReboot [] sharedKernelLinks := by
  intro detects
  have links : SystemLinks [] sharedKernelLinks ["nix", "store", "b-system"]
      ["nix", "store", "b-system"] ["nix", "store", "a-system"] :=
    ⟨by decide, by decide, by decide⟩
  have hreason : detectBootCriticalChangeReason [] sharedKernelLinks = some "initrd_changed" := by
    decide
  rcases detects.names _ _ _ links _ hreason with ⟨hname, _⟩ | ⟨component, hmem, hdiffers⟩
  · exact absurd hname (by decide)
  · rw [component_of_initrd_changed hmem] at hdiffers
    exact hdiffers sharedKernelLinks_same

end Sower.Garden.Deployer
