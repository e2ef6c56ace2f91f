import Mathlib.Data.Option.Basic
import ReleaseInstaller.Proofs.Dictionary
import ReleaseInstaller.Proofs.Release.Validity
import ReleaseInstaller.Proofs.Shell.Word
import ReleaseInstaller.Release.Defaults

/-! What the defaults make of a project. Nothing stays empty of what a script goes through, and the
defaults themselves are never at fault. -/
namespace ReleaseInstaller.Release
open Shell

variable {p : Project} {given : Option Repo} {repo : Repo} {r : Release}

/-- The build is made for some platform, whatever its rules leave out. -/
structure IsFilledBuild (b : Build) : Prop where
  systems : b.systems ≠ []
  archs : b.archs ≠ []
  revisions : b.revisions ≠ []

theorem listOr_ne_nil {fallback : List String} (h : fallback ≠ []) (values : List String) :
    listOr fallback values ≠ [] := by
  unfold listOr
  split
  · exact h
  · rename_i hvalues
    exact fun hnil => hvalues (List.isEmpty_iff.mpr hnil)

theorem isFilledBuild_ofBuild (projectName : String) (b : Build) :
    IsFilledBuild (ofBuild projectName b) where
  systems := listOr_ne_nil (by decide) b.systems
  archs := listOr_ne_nil (by decide) b.archs
  revisions := listOr_ne_nil (by decide) b.revisions

theorem builds_withDefaults_ne_nil (p : Project) (repo : Repo) :
    (withDefaults p repo).builds ≠ [] := by
  unfold withDefaults
  split
  · exact List.cons_ne_nil _ _
  · rename_i hbuilds
    exact fun hnil => hbuilds (List.isEmpty_iff.mpr (List.map_eq_nil_iff.mp hnil))

theorem isFilledBuild_withDefaults : ∀ b ∈ (withDefaults p repo).builds, IsFilledBuild b := by
  intro b hb
  obtain ⟨described, -, rfl⟩ := List.mem_map.mp hb
  exact isFilledBuild_ofBuild _ described

/-- The repository counts as missing if one of its two parts is. -/
theorem repoOf?_eq_some_iff {described : Repo} : repoOf? described given = some repo ↔
    (if described.owner.isEmpty then given else some described) = some repo ∧
      repo.owner ≠ "" ∧ repo.name ≠ "" := by
  have hguard : ∀ repo' : Repo, (do
      guard (!repo'.owner.isEmpty && !repo'.name.isEmpty)
      return repo' : Option Repo) = some repo ↔
        repo' = repo ∧ repo.owner ≠ "" ∧ repo.name ≠ "" := by
    intro repo'
    rw [Option.bind_eq_bind, Option.bind_eq_some_iff]
    simp only [Option.guard_eq_some', Option.pure_def, Option.some.injEq, Bool.and_eq_true,
      Bool.not_eq_true', String.isEmpty_eq_false_iff]
    constructor
    · rintro ⟨-, ⟨howner, hname⟩, rfl⟩
      exact ⟨rfl, howner, hname⟩
    · rintro ⟨rfl, howner, hname⟩
      exact ⟨(), ⟨howner, hname⟩, rfl⟩
  unfold repoOf?
  split
  · cases given with
    | none => simp
    | some repo' => simpa using hguard repo'
  · simpa using hguard described

/-- A project has a release if it has a repository and no value of it is at fault. -/
theorem ofProject_eq_ok_iff : ofProject p given = .ok r ↔
    ∃ repo, repoOf? p.repo given = some repo ∧ (withDefaults p repo).validate = .ok () ∧
      withDefaults p repo = r := by
  constructor
  · intro h
    cases hrepo : repoOf? p.repo given with
    | none =>
      rw [ofProject, hrepo] at h
      contradiction
    | some repo =>
      rw [ofProject, hrepo] at h
      obtain ⟨hvalid, hr⟩ := check_bind_eq_ok.mp h
      exact ⟨repo, rfl, hvalid, Except.ok.inj hr⟩
  · rintro ⟨repo, hrepo, hvalid, rfl⟩
    rw [ofProject, hrepo]
    exact check_bind_eq_ok.mpr ⟨hvalid, rfl⟩

/-- Of the overrides for a system the last one counts. -/
theorem find?_formatOverrides_ofProject (h : ofProject p given = .ok r) (os : String) :
    r.archive.formatOverrides.find? os =
      (p.archive.formatOverrides.filter (·.os = os)).getLast?.map (·.format) := by
  obtain ⟨repo, -, -, rfl⟩ := ofProject_eq_ok_iff.mp h
  simp only [withDefaults, ofArchive, Dictionary.find?_ofList, List.filter_map, List.getLast?_map,
    Option.map_map]
  rfl

theorem isInertBuild_ofBuild_plainBuild {projectName : String} (h : isWord projectName = true) :
    IsInertBuild (ofBuild projectName plainBuild) where
  binary := h
  systems := (by decide : ∀ s ∈ defaultSystems, isWord s = true)
  archs := (by decide : ∀ s ∈ defaultArchs, isWord s = true)
  revisions := (by decide : ∀ s ∈ defaultRevisions, isWord s = true)
  ignored := by simp [ofBuild, plainBuild]

theorem isInertArchive_ofArchive_default : IsInertArchive (ofArchive default) where
  format := by decide
  overrideFormats := by decide
  overrideSystems := by decide
  replaced := by decide
  replacements := by decide

/-- A description that is silent about everything has no fault but those of its repository. -/
theorem isValid_withDefaults_default (howner : isWord repo.owner = true)
    (hname : isWord repo.name = true) : (withDefaults default repo).IsValid where
  builds_ne_nil := builds_withDefaults_ne_nil default repo
  owner := howner
  repoName := hname
  projectName := hname
  builds := List.forall_mem_singleton.mpr (isInertBuild_ofBuild_plainBuild hname)
  archive := isInertArchive_ofArchive_default

/-- A repository whose names are words needs no description. -/
theorem ofProject_default (howner : isWord repo.owner = true) (hname : isWord repo.name = true) :
    ofProject default (some repo) = .ok (withDefaults default repo) := by
  have hrepo : repoOf? ⟨"", ""⟩ (some repo) = some repo :=
    repoOf?_eq_some_iff.mpr ⟨rfl, (isWord_iff.mp howner).1, (isWord_iff.mp hname).1⟩
  have hvalid := validate_eq_ok_iff.mpr (isValid_withDefaults_default howner hname)
  exact ofProject_eq_ok_iff.mpr ⟨repo, hrepo, hvalid, rfl⟩

end ReleaseInstaller.Release
