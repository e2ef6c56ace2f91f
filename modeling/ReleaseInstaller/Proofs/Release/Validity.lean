import ReleaseInstaller.Proofs.Except
import ReleaseInstaller.Release.Validity

/-! Which releases are valid: every value that goes into a script is a word of inert characters, and
every format can be unpacked. -/
namespace ReleaseInstaller.Release
open Shell

structure IsInertRule (r : IgnoreRule) : Prop where
  os : isWord r.os = true
  arch : isWord r.arch = true
  revision : ∀ v ∈ r.revision, isWord v = true

structure IsInertBuild (b : Build) : Prop where
  binary : isWord b.binary = true
  systems : ∀ s ∈ b.systems, isWord s = true
  archs : ∀ s ∈ b.archs, isWord s = true
  revisions : ∀ s ∈ b.revisions, isWord s = true
  ignored : ∀ r ∈ b.ignored, IsInertRule r

structure IsInertArchive (a : Archive) : Prop where
  format : a.format ∈ supportedFormats
  overrideFormats : ∀ f ∈ a.formatOverrides.values, f ∈ supportedFormats
  overrideSystems : ∀ s ∈ a.formatOverrides.keys, isWord s = true
  replaced : ∀ s ∈ a.replacements.keys, isWord s = true
  replacements : ∀ s ∈ a.replacements.values, isWord s = true

structure IsValid (r : Release) : Prop where
  builds_ne_nil : r.builds ≠ []
  owner : isWord r.repo.owner = true
  repoName : isWord r.repo.name = true
  projectName : isWord r.projectName = true
  builds : ∀ b ∈ r.builds, IsInertBuild b
  archive : IsInertArchive r.archive

theorem checkWord_eq_ok_iff {setting : Setting} {value : String} :
    checkWord setting value = .ok () ↔ isWord value = true := by
  unfold checkWord
  split <;> simp [*]

theorem checkWords_eq_ok_iff {setting : Setting} {values : List String} :
    checkWords setting values = .ok () ↔ ∀ v ∈ values, isWord v = true := by
  simp only [checkWords, forM_eq_ok_iff, checkWord_eq_ok_iff]

theorem checkFormat_eq_ok_iff {format : String} :
    checkFormat format = .ok () ↔ format ∈ supportedFormats := by
  unfold checkFormat
  split <;> simp [*]

theorem checkIgnoreRule_eq_ok_iff {r : IgnoreRule} :
    checkIgnoreRule r = .ok () ↔ IsInertRule r := by
  simp only [checkIgnoreRule, check_bind_eq_ok, checkWord_eq_ok_iff, checkWords_eq_ok_iff,
    Option.mem_toList]
  exact ⟨fun ⟨hos, harch, hrevision⟩ => ⟨hos, harch, hrevision⟩,
    fun h => ⟨h.os, h.arch, h.revision⟩⟩

theorem checkBuild_eq_ok_iff {b : Build} : checkBuild b = .ok () ↔ IsInertBuild b := by
  simp only [checkBuild, check_bind_eq_ok, checkWord_eq_ok_iff, checkWords_eq_ok_iff,
    forM_eq_ok_iff, checkIgnoreRule_eq_ok_iff]
  constructor
  · rintro ⟨hbinary, hsystems, harchs, hrevisions, hignored⟩
    exact ⟨hbinary, hsystems, harchs, hrevisions, hignored⟩
  · intro h
    exact ⟨h.binary, h.systems, h.archs, h.revisions, h.ignored⟩

theorem checkArchive_eq_ok_iff {a : Archive} : checkArchive a = .ok () ↔ IsInertArchive a := by
  simp only [checkArchive, check_bind_eq_ok, checkWords_eq_ok_iff, forM_eq_ok_iff,
    checkFormat_eq_ok_iff, List.forall_mem_cons]
  constructor
  · rintro ⟨⟨hformat, hformats⟩, hsystems, hkeys, hvalues⟩
    exact ⟨hformat, hformats, hsystems, hkeys, hvalues⟩
  · intro h
    exact ⟨⟨h.format, h.overrideFormats⟩, h.overrideSystems, h.replaced, h.replacements⟩

theorem validate_eq_ok_iff {r : Release} : r.validate = .ok () ↔ r.IsValid := by
  unfold validate
  by_cases hb : r.builds.isEmpty = true
  · rw [if_pos hb]
    constructor
    · intro h
      cases h
    · intro h
      exact absurd (List.isEmpty_iff.mp hb) h.builds_ne_nil
  · have hne : r.builds ≠ [] := fun h => hb (List.isEmpty_iff.mpr h)
    rw [if_neg hb]
    simp only [check_bind_eq_ok, checkWord_eq_ok_iff, forM_eq_ok_iff, checkBuild_eq_ok_iff,
      checkArchive_eq_ok_iff]
    constructor
    · rintro ⟨howner, hname, hproject, hbuilds, harchive⟩
      exact ⟨hne, howner, hname, hproject, hbuilds, harchive⟩
    · intro h
      exact ⟨h.owner, h.repoName, h.projectName, h.builds, h.archive⟩

/-- The fault is about a value that is at fault. -/
def Fault.IsFounded : Fault → Prop
  | noRepo => False
  | unsupportedFormat format => format ∉ supportedFormats
  | unsafeValue _ value => isWord value = false

theorem checkWord_refuses (setting : Setting) (value : String) :
    RefusesWith Fault.IsFounded (checkWord setting value) := by
  intro fault h
  unfold checkWord at h
  split at h
  · cases h
  · rename_i hword
    cases h
    exact Bool.eq_false_iff.mpr hword

theorem checkWords_refuses (setting : Setting) (values : List String) :
    RefusesWith Fault.IsFounded (checkWords setting values) :=
  refusesWith_forM fun value _ => checkWord_refuses setting value

theorem checkFormat_refuses (format : String) :
    RefusesWith Fault.IsFounded (checkFormat format) := by
  intro fault h
  unfold checkFormat at h
  split at h
  · cases h
  · rename_i hformat
    cases h
    exact hformat

theorem checkIgnoreRule_refuses (r : IgnoreRule) :
    RefusesWith Fault.IsFounded (checkIgnoreRule r) := by
  apply (checkWord_refuses _ _).bind
  intro _
  apply (checkWord_refuses _ _).bind
  intro _
  exact checkWords_refuses _ _

theorem checkBuild_refuses (b : Build) : RefusesWith Fault.IsFounded (checkBuild b) := by
  apply (checkWord_refuses _ _).bind
  intro _
  apply (checkWords_refuses _ _).bind
  intro _
  apply (checkWords_refuses _ _).bind
  intro _
  apply (checkWords_refuses _ _).bind
  intro _
  exact refusesWith_forM fun rule _ => checkIgnoreRule_refuses rule

theorem checkArchive_refuses (a : Archive) : RefusesWith Fault.IsFounded (checkArchive a) := by
  apply (refusesWith_forM fun format _ => checkFormat_refuses format).bind
  intro _
  apply (checkWords_refuses _ _).bind
  intro _
  apply (checkWords_refuses _ _).bind
  intro _
  exact checkWords_refuses _ _

/-- A release is never refused for a value that is all right, or for want of a repository. -/
theorem validate_refuses (r : Release) : RefusesWith Fault.IsFounded r.validate := by
  unfold validate
  split
  · intro fault h
    cases h
    rfl
  · apply (checkWord_refuses _ _).bind
    intro _
    apply (checkWord_refuses _ _).bind
    intro _
    apply (checkWord_refuses _ _).bind
    intro _
    apply (refusesWith_forM fun b _ => checkBuild_refuses b).bind
    intro _
    exact checkArchive_refuses r.archive

end ReleaseInstaller.Release
