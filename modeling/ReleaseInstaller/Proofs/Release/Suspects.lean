import ReleaseInstaller.Proofs.Release.Validity
import ReleaseInstaller.Proofs.Shell.Word

/-! Which of several faults a check reports. It goes through the values of a release one by one and
stops at the first that is at fault, so it comes to the same as a search through a list of suspects. -/
namespace ReleaseInstaller.Release
open Shell

instance : DecidablePred Fault.IsFounded
  | .noRepo => inferInstanceAs (Decidable False)
  | .unsupportedFormat format => inferInstanceAs (Decidable (format ∉ supportedFormats))
  | .unsafeValue _ value => inferInstanceAs (Decidable (isWord value = false))

/-- Reports the first suspect that is at fault. -/
def search (suspects : List Fault) : Except Fault Unit :=
  match suspects.find? (·.IsFounded) with
  | some fault => .error fault
  | none => .ok ()

/-- The fault is at fault, and no suspect before it is. -/
def IsFirstFounded (suspects : List Fault) (fault : Fault) : Prop :=
  ∃ before after, suspects = before ++ fault :: after ∧ fault.IsFounded ∧
    ∀ suspect ∈ before, ¬ suspect.IsFounded

section Search
variable {α : Type} {suspects suspects' : List Fault} {fault : Fault}

theorem search_eq_error_iff : search suspects = .error fault ↔ IsFirstFounded suspects fault := by
  have hfind : search suspects = .error fault ↔ suspects.find? (·.IsFounded) = some fault := by
    unfold search
    split <;> simp [*]
  rw [hfind, List.find?_eq_some_iff_append]
  simp only [decide_eq_true_eq, Bool.not_eq_true', decide_eq_false_iff_not]
  constructor
  · rintro ⟨hfounded, before, after, rfl, hbefore⟩
    exact ⟨before, after, rfl, hfounded, hbefore⟩
  · rintro ⟨before, after, rfl, hfounded, hbefore⟩
    exact ⟨hfounded, before, after, rfl, hbefore⟩

/-- One search after the other is a search through both lists. -/
theorem search_append :
    (search suspects >>= fun _ => search suspects') = search (suspects ++ suspects') := by
  simp only [search, List.find?_append]
  cases suspects.find? (·.IsFounded) <;> rfl

theorem forM_eq_search {f : α → Except Fault Unit} {g : α → List Fault}
    (h : ∀ x, f x = search (g x)) (l : List α) : l.forM f = search (l.flatMap g) := by
  induction l with
  | nil => rfl
  | cons x l ih =>
    have hcons : (x :: l).forM f = f x >>= fun _ => l.forM f := rfl
    rw [hcons, h, ih, search_append, List.flatMap_cons]

theorem checkWord_eq_search (setting : Setting) (value : String) :
    checkWord setting value = search [.unsafeValue setting value] := by
  unfold checkWord search
  cases h : isWord value <;> simp [Fault.IsFounded, h]

theorem checkWords_eq_search (setting : Setting) (values : List String) :
    checkWords setting values = search (values.map (.unsafeValue setting)) := by
  rw [checkWords, forM_eq_search (checkWord_eq_search setting), List.map_eq_flatMap]

theorem checkFormat_eq_search (format : String) :
    checkFormat format = search [.unsupportedFormat format] := by
  unfold checkFormat search
  by_cases h : format ∈ supportedFormats <;> simp [Fault.IsFounded, h]

end Search

/-! The suspects in the order of the check: whatever a release says under a setting, as a fault. -/

def ruleSuspects (r : IgnoreRule) : List Fault :=
  [.unsafeValue .ignoredSystem r.os] ++ ([.unsafeValue .ignoredArch r.arch] ++
    r.revision.toList.map (.unsafeValue .ignoredRevision))

def buildSuspects (b : Build) : List Fault :=
  [.unsafeValue .binary b.binary] ++ (b.systems.map (.unsafeValue .system) ++
    (b.archs.map (.unsafeValue .arch) ++ (b.revisions.map (.unsafeValue .revision) ++
      b.ignored.flatMap ruleSuspects)))

def archiveSuspects (a : Archive) : List Fault :=
  (a.format :: a.formatOverrides.values).map .unsupportedFormat ++
    (a.formatOverrides.keys.map (.unsafeValue .overrideSystem) ++
      (a.replacements.keys.map (.unsafeValue .replacement) ++
        a.replacements.values.map (.unsafeValue .replacement)))

/-- What a release says about its names and its platforms. -/
def nameSuspects (r : Release) : List Fault :=
  [.unsafeValue .owner r.repo.owner] ++ ([.unsafeValue .repoName r.repo.name] ++
    ([.unsafeValue .projectName r.projectName] ++ r.builds.flatMap buildSuspects))

def suspects (r : Release) : List Fault := nameSuspects r ++ archiveSuspects r.archive

theorem checkIgnoreRule_eq_search (r : IgnoreRule) : checkIgnoreRule r = search (ruleSuspects r) := by
  simp only [checkIgnoreRule, checkWord_eq_search, checkWords_eq_search, search_append, ruleSuspects]

theorem checkBuild_eq_search (b : Build) : checkBuild b = search (buildSuspects b) := by
  simp only [checkBuild, checkWord_eq_search, checkWords_eq_search,
    forM_eq_search checkIgnoreRule_eq_search, search_append, buildSuspects]

theorem checkArchive_eq_search (a : Archive) : checkArchive a = search (archiveSuspects a) := by
  simp only [checkArchive, checkWords_eq_search, forM_eq_search checkFormat_eq_search,
    search_append, archiveSuspects, List.map_eq_flatMap]

variable {r : Release}

/-- The names and the platforms are inert, whatever the archives are like. -/
structure HasInertNames (r : Release) : Prop where
  owner : isWord r.repo.owner = true
  repoName : isWord r.repo.name = true
  projectName : isWord r.projectName = true
  builds : ∀ b ∈ r.builds, IsInertBuild b

theorem search_nameSuspects_eq_ok_iff : search r.nameSuspects = .ok () ↔ r.HasInertNames := by
  simp only [nameSuspects, ← search_append, ← forM_eq_search checkBuild_eq_search,
    ← checkWord_eq_search, check_bind_eq_ok, checkWord_eq_ok_iff, forM_eq_ok_iff,
    checkBuild_eq_ok_iff]
  constructor
  · rintro ⟨howner, hname, hproject, hbuilds⟩
    exact ⟨howner, hname, hproject, hbuilds⟩
  · intro h
    exact ⟨h.owner, h.repoName, h.projectName, h.builds⟩

theorem validate_eq_search (h : r.builds ≠ []) : r.validate = search r.suspects := by
  have hbuilds : ¬ r.builds.isEmpty = true := fun hnil => h (List.isEmpty_iff.mp hnil)
  unfold validate
  rw [if_neg hbuilds]
  simp only [checkWord_eq_search, forM_eq_search checkBuild_eq_search, checkArchive_eq_search,
    search_append, suspects, nameSuspects, List.append_assoc]

theorem validate_eq_error_iff {fault : Fault} : r.validate = .error fault ↔
    if r.builds = [] then fault = .unsafeValue .builds "" else IsFirstFounded r.suspects fault := by
  split
  · rename_i hbuilds
    unfold validate
    rw [if_pos (List.isEmpty_iff.mpr hbuilds)]
    exact ⟨fun h => (Except.error.inj h).symm, fun h => h ▸ rfl⟩
  · rename_i hbuilds
    rw [validate_eq_search hbuilds, search_eq_error_iff]

/-- The value stands under the setting. -/
def Gives (r : Release) : Setting → String → Prop
  | .builds, _ => False
  | .owner, v => r.repo.owner = v
  | .repoName, v => r.repo.name = v
  | .projectName, v => r.projectName = v
  | .binary, v => ∃ b ∈ r.builds, b.binary = v
  | .system, v => ∃ b ∈ r.builds, v ∈ b.systems
  | .arch, v => ∃ b ∈ r.builds, v ∈ b.archs
  | .revision, v => ∃ b ∈ r.builds, v ∈ b.revisions
  | .ignoredSystem, v => ∃ b ∈ r.builds, ∃ rule ∈ b.ignored, rule.os = v
  | .ignoredArch, v => ∃ b ∈ r.builds, ∃ rule ∈ b.ignored, rule.arch = v
  | .ignoredRevision, v => ∃ b ∈ r.builds, ∃ rule ∈ b.ignored, rule.revision = some v
  | .overrideSystem, v => v ∈ r.archive.formatOverrides.keys
  | .replacement, v => v ∈ r.archive.replacements.keys ∨ v ∈ r.archive.replacements.values

theorem unsafeValue_mem_suspects_iff {setting : Setting} {value : String} :
    .unsafeValue setting value ∈ r.suspects ↔ r.Gives setting value := by
  cases setting <;>
    simp [suspects, nameSuspects, buildSuspects, ruleSuspects, archiveSuspects, Gives, eq_comm]

theorem unsupportedFormat_mem_suspects_iff {format : String} :
    .unsupportedFormat format ∈ r.suspects ↔
      format ∈ r.archive.format :: r.archive.formatOverrides.values := by
  simp [suspects, nameSuspects, buildSuspects, ruleSuspects, archiveSuspects, eq_comm]

theorem unsupportedFormat_notMem_nameSuspects (format : String) :
    .unsupportedFormat format ∉ r.nameSuspects := by
  simp [nameSuspects, buildSuspects, ruleSuspects]

/-- Formats are looked at only after all names. -/
theorem hasInertNames_of_unsupportedFormat {format : String}
    (h : search r.suspects = .error (.unsupportedFormat format)) : r.HasInertNames := by
  rw [suspects, ← search_append] at h
  cases hnames : search r.nameSuspects with
  | ok _ => exact search_nameSuspects_eq_ok_iff.mp hnames
  | error fault =>
    rw [hnames] at h
    obtain rfl := Except.error.inj h
    obtain ⟨before, after, hsplit, -⟩ := search_eq_error_iff.mp hnames
    exact absurd (hsplit ▸ List.mem_append_right _ List.mem_cons_self)
      (unsupportedFormat_notMem_nameSuspects format)

theorem isWord_eq_false_iff {s : String} :
    isWord s = false ↔ s = "" ∨ ∃ c ∈ s.toList, isWordChar c = false := by
  rw [← Bool.not_eq_true, isWord_iff, not_and_or]
  simp

/-- What a check accepts, and what it reports of a release that it refuses: that there is nothing to
build, or else the first of all values that is at fault. Names and platforms come before formats, and
those before the systems and the replacements of archives. -/
theorem validate_exact (r : Release) :
    (r.validate = .ok () ↔ r.IsValid) ∧
    (∀ setting value, r.validate = .error (.unsafeValue setting value) →
      setting = .builds ∧ value = "" ∧ r.builds = [] ∨
      r.Gives setting value ∧ (value = "" ∨ ∃ c ∈ value.toList, isWordChar c = false)) ∧
    (∀ format, r.validate = .error (.unsupportedFormat format) →
      format ∈ r.archive.format :: r.archive.formatOverrides.values ∧ format ∉ supportedFormats ∧
      r.HasInertNames) ∧
    ∀ fault, r.validate = .error fault ↔
      if r.builds = [] then fault = .unsafeValue .builds ""
      else IsFirstFounded r.suspects fault := by
  have hmem : ∀ fault, IsFirstFounded r.suspects fault → fault ∈ r.suspects := by
    rintro fault ⟨before, after, hsplit, -⟩
    exact hsplit ▸ List.mem_append_right _ List.mem_cons_self
  refine ⟨validate_eq_ok_iff, fun setting value h => ?_, fun format h => ?_,
    fun fault => validate_eq_error_iff⟩
  · have hfounded := validate_refuses r _ h
    rw [validate_eq_error_iff] at h
    split at h
    · cases h
      exact .inl ⟨rfl, rfl, ‹_›⟩
    · exact .inr ⟨unsafeValue_mem_suspects_iff.mp (hmem _ h), isWord_eq_false_iff.mp hfounded⟩
  · have hfounded := validate_refuses r _ h
    by_cases hbuilds : r.builds = []
    · rw [validate_eq_error_iff, if_pos hbuilds] at h
      cases h
    · rw [validate_eq_search hbuilds] at h
      exact ⟨unsupportedFormat_mem_suspects_iff.mp (hmem _ (search_eq_error_iff.mp h)), hfounded,
        hasInertNames_of_unsupportedFormat h⟩

/-- A release without a build whose owner is no word. -/
def buildlessRelease : Release where
  projectName := "tool"
  repo := ⟨"a b", "tool"⟩
  builds := []
  archive := ⟨"", "tar.gz", ∅, ∅, false⟩
  checksumTemplate := ""

/-- The want of a build is reported before any value, even before an owner that is at fault. -/
theorem missing_build_comes_first :
    IsFirstFounded buildlessRelease.suspects (.unsafeValue .owner "a b") ∧
      buildlessRelease.validate = .error (.unsafeValue .builds "") ∧
      buildlessRelease.validate ≠ .error (.unsafeValue .owner "a b") := by
  have hfirst : search buildlessRelease.suspects = .error (.unsafeValue .owner "a b") := by decide
  refine ⟨search_eq_error_iff.mp hfirst, rfl, ?_⟩
  decide

end ReleaseInstaller.Release
