import Mathlib.Data.List.Forall2
import ReleaseInstaller.Proofs.Release.Defaults

/-! What defaults add to a description, and that they add nothing to the description of a release that
has them already. -/
namespace ReleaseInstaller
open Shell

/-- The description that says everything about a release. -/
def Release.toProject (r : Release) : Project where
  name := some r.projectName
  repo := r.repo
  builds := r.builds
  archive := {
    nameTemplate := some r.archive.nameTemplate
    format := some r.archive.format
    formatOverrides := r.archive.formatOverrides.entries.map fun e => ⟨e.1, e.2⟩
    replacements := r.archive.replacements
    wrapInDirectory := r.archive.wrapInDirectory }
  checksumTemplate := some r.checksumTemplate

namespace Release

/-- What is written is kept, and what is empty becomes the default. -/
structure FillsIn {α : Type} (empty fallback written result : α) : Prop where
  kept : written ≠ empty → result = written
  filled : written = empty → result = fallback

/-- A rule is kept as it is, but an empty revision is no revision. -/
structure IsCompletedRule (written r : IgnoreRule) : Prop where
  os : r.os = written.os
  arch : r.arch = written.arch
  revision : ∀ v, r.revision = some v ↔ written.revision = some v ∧ v ≠ ""

structure IsCompletedBuild (projectName : String) (written b : Build) : Prop where
  binary : FillsIn "" projectName written.binary b.binary
  systems : FillsIn [] defaultSystems written.systems b.systems
  archs : FillsIn [] defaultArchs written.archs b.archs
  revisions : FillsIn [] defaultRevisions written.revisions b.revisions
  ignored : List.Forall₂ IsCompletedRule written.ignored b.ignored

structure IsCompletedArchive (written : Project.Archive) (a : Archive) : Prop where
  nameTemplate : FillsIn none (some defaultNameTemplate) written.nameTemplate (some a.nameTemplate)
  format : FillsIn none (some defaultFormat) written.format (some a.format)
  /-- Of several overrides for a system the last one is kept. -/
  formatOverrides : ∀ os, a.formatOverrides.find? os =
    (written.formatOverrides.filter (·.os = os)).getLast?.map (·.format)
  replacements : a.replacements = written.replacements
  wrapInDirectory : a.wrapInDirectory = written.wrapInDirectory

/-- The release says what the project says, and has defaults where the project is silent. -/
structure IsCompleted (p : Project) (given : Option Repo) (r : Release) : Prop where
  /-- The name of a repository counts only with its owner. -/
  repo : if p.repo.owner = "" then given = some r.repo else r.repo = p.repo
  projectName : FillsIn "" r.repo.name (p.name.getD "") r.projectName
  builds : List.Forall₂ (IsCompletedBuild r.projectName)
    (if p.builds = [] then [plainBuild] else p.builds) r.builds
  archive : IsCompletedArchive p.archive r.archive
  checksumTemplate :
    FillsIn none (some defaultChecksumTemplate) p.checksumTemplate (some r.checksumTemplate)

section Values
variable {α : Type}

theorem fillsIn_textOr (fallback written : String) :
    FillsIn "" fallback written (textOr fallback written) where
  kept h := if_neg fun hempty => h (String.isEmpty_iff.mp hempty)
  filled h := if_pos (String.isEmpty_iff.mpr h)

theorem fillsIn_listOr (fallback written : List String) :
    FillsIn [] fallback written (listOr fallback written) where
  kept h := if_neg fun hempty => h (List.isEmpty_iff.mp hempty)
  filled h := if_pos (List.isEmpty_iff.mpr h)

theorem fillsIn_getD (fallback : α) (written : Option α) :
    FillsIn none (some fallback) written (some (written.getD fallback)) := by
  cases written with
  | none => exact ⟨fun h => absurd rfl h, fun _ => rfl⟩
  | some x => exact ⟨fun _ => rfl, fun h => nomatch h⟩

end Values

theorem isCompletedRule_ofIgnoreRule (written : IgnoreRule) :
    IsCompletedRule written (ofIgnoreRule written) where
  os := rfl
  arch := rfl
  revision v := by simp [ofIgnoreRule, Option.filter_eq_some_iff]

theorem isCompletedBuild_ofBuild (projectName : String) (written : Build) :
    IsCompletedBuild projectName written (ofBuild projectName written) where
  binary := fillsIn_textOr projectName written.binary
  systems := fillsIn_listOr defaultSystems written.systems
  archs := fillsIn_listOr defaultArchs written.archs
  revisions := fillsIn_listOr defaultRevisions written.revisions
  ignored := List.forall₂_map_right_iff.mpr
    (List.forall₂_same.mpr fun rule _ => isCompletedRule_ofIgnoreRule rule)

variable {p : Project} {given : Option Repo} {r : Release}

theorem isCompleted_ofProject (h : ofProject p given = .ok r) : IsCompleted p given r := by
  have hoverrides := find?_formatOverrides_ofProject h
  obtain ⟨repo, hrepo, -, rfl⟩ := ofProject_eq_ok_iff.mp h
  obtain ⟨hsource, -⟩ := repoOf?_eq_some_iff.mp hrepo
  exact {
    repo := by
      simp only [String.isEmpty_iff] at hsource
      split at hsource
      · rwa [if_pos ‹_›]
      · rw [if_neg ‹_›]
        exact (Option.some.inj hsource).symm
    projectName := fillsIn_textOr repo.name (p.name.getD "")
    builds := by
      refine List.forall₂_map_right_iff.mpr ?_
      simp only [List.isEmpty_iff]
      exact List.forall₂_same.mpr fun b _ => isCompletedBuild_ofBuild _ b
    archive := {
      nameTemplate := fillsIn_getD defaultNameTemplate p.archive.nameTemplate
      format := fillsIn_getD defaultFormat p.archive.format
      formatOverrides := hoverrides
      replacements := rfl
      wrapInDirectory := rfl }
    checksumTemplate := fillsIn_getD defaultChecksumTemplate p.checksumTemplate }

/-! Nothing is left to fill in after that. -/

theorem ofIgnoreRule_eq_self {rule : IgnoreRule} (h : IsInertRule rule) : ofIgnoreRule rule = rule := by
  have hrevision : rule.revision.filter (!·.isEmpty) = rule.revision := by
    cases hv : rule.revision with
    | none => rfl
    | some v =>
      have hne := (isWord_iff.mp (h.revision v hv)).1
      exact Option.filter_some_pos (by simpa using hne)
  rw [ofIgnoreRule, hrevision]

theorem ofBuild_eq_self {b : Build} (h : IsInertBuild b) (hfilled : IsFilledBuild b)
    (projectName : String) : ofBuild projectName b = b := by
  have hbinary := (fillsIn_textOr projectName b.binary).kept (isWord_iff.mp h.binary).1
  have hsystems := (fillsIn_listOr defaultSystems b.systems).kept hfilled.systems
  have harchs := (fillsIn_listOr defaultArchs b.archs).kept hfilled.archs
  have hrevisions := (fillsIn_listOr defaultRevisions b.revisions).kept hfilled.revisions
  have hignored : b.ignored.map ofIgnoreRule = b.ignored := by
    rw [List.map_congr_left fun rule hrule => ofIgnoreRule_eq_self (h.ignored rule hrule), List.map_id']
  rw [ofBuild, hbinary, hsystems, harchs, hrevisions, hignored]

theorem ofArchive_toProject (r : Release) : ofArchive r.toProject.archive = r.archive := by
  have hoverrides : Dictionary.ofList
      (r.toProject.archive.formatOverrides.map fun o => (o.os, o.format)) =
        r.archive.formatOverrides := by
    rw [toProject, List.map_map]
    exact (congrArg Dictionary.ofList (List.map_id' _)).trans (Dictionary.ofList_entries _)
  rw [ofArchive, hoverrides]
  rfl

/-- A valid release in which no list is empty is what its own description comes to. -/
theorem withDefaults_toProject (h : r.IsValid) (hfilled : ∀ b ∈ r.builds, IsFilledBuild b) :
    withDefaults r.toProject r.repo = r := by
  have hname : textOr r.repo.name (r.toProject.name.getD "") = r.projectName :=
    (fillsIn_textOr r.repo.name r.projectName).kept (isWord_iff.mp h.projectName).1
  have hsome : ¬ r.toProject.builds.isEmpty = true := fun hnil =>
    h.builds_ne_nil (List.isEmpty_iff.mp hnil)
  have hbuilds : r.toProject.builds.map (ofBuild r.projectName) = r.builds := by
    have hself : ∀ b ∈ r.builds, ofBuild r.projectName b = b := fun b hb =>
      ofBuild_eq_self (h.builds b hb) (hfilled b hb) r.projectName
    exact (List.map_congr_left hself).trans (List.map_id' _)
  rw [withDefaults, hname, if_neg hsome, hbuilds, ofArchive_toProject]
  rfl

theorem ofProject_toProject (h : ofProject p given = .ok r) (other : Option Repo) :
    ofProject r.toProject other = .ok r := by
  obtain ⟨repo, hrepo, hvalid, rfl⟩ := ofProject_eq_ok_iff.mp h
  obtain ⟨-, howner, hname⟩ := repoOf?_eq_some_iff.mp hrepo
  have hself := withDefaults_toProject (validate_eq_ok_iff.mp hvalid) isFilledBuild_withDefaults
  have hrepo' : repoOf? repo other = some repo := by
    refine repoOf?_eq_some_iff.mpr ⟨if_neg fun hempty => ?_, howner, hname⟩
    exact howner (String.isEmpty_iff.mp hempty)
  exact ofProject_eq_ok_iff.mpr ⟨repo, hrepo', hself.symm ▸ hvalid, hself⟩

/-- A release keeps what its project says and has the defaults for the rest, and there is nothing more
to fill in: the description of the release gives the release again, whatever repository is given. -/
theorem ofProject_completed (h : ofProject p given = .ok r) :
    IsCompleted p given r ∧ ∀ other, ofProject r.toProject other = .ok r :=
  ⟨isCompleted_ofProject h, ofProject_toProject h⟩

/-- A project with values of every kind: written, empty and missing. -/
def partialProject : Project where
  name := some ""
  repo := ⟨"", "tool"⟩
  builds := [⟨"", ["linux"], [], ["7"], [⟨"linux", "arm", some ""⟩, ⟨"linux", "arm", some "7"⟩]⟩,
    ⟨"cli", [], ["arm64"], [], []⟩]
  archive := ⟨none, some "zip", [⟨"linux", "tar"⟩, ⟨"linux", "tgz"⟩], ∅, true⟩
  checksumTemplate := some "sums.txt"

/-- What becomes of it in a given repository. -/
def completedRelease : Release where
  projectName := "bar"
  repo := ⟨"foo", "bar"⟩
  builds := [⟨"bar", ["linux"], ["amd64", "386"], ["7"],
      [⟨"linux", "arm", none⟩, ⟨"linux", "arm", some "7"⟩]⟩,
    ⟨"cli", ["linux", "darwin"], ["arm64"], ["6"], []⟩]
  archive := ⟨defaultNameTemplate, "zip", Dictionary.ofList [("linux", "tgz")], ∅, true⟩
  checksumTemplate := "sums.txt"

theorem ofProject_partialProject :
    ofProject partialProject (some ⟨"foo", "bar"⟩) = .ok completedRelease := by
  decide

theorem ofProject_completed_partial :
    IsCompleted partialProject (some ⟨"foo", "bar"⟩) completedRelease ∧
      ofProject completedRelease.toProject none = .ok completedRelease := by
  obtain ⟨hcompleted, hagain⟩ := ofProject_completed ofProject_partialProject
  exact ⟨hcompleted, hagain none⟩

/-- Two values that are written and do not last: a name without an owner, and an override with another
one for the same system behind it. -/
theorem written_values_give_way :
    (partialProject.repo.name = "tool" ∧ ⟨"linux", "tar"⟩ ∈ partialProject.archive.formatOverrides) ∧
      ofProject partialProject (some ⟨"foo", "bar"⟩) = .ok completedRelease ∧
      completedRelease.repo.name ≠ "tool" ∧
      completedRelease.archive.formatOverrides.find? "linux" ≠ some "tar" := by
  refine ⟨⟨rfl, List.mem_cons_self⟩, ofProject_partialProject, ?_, ?_⟩ <;> decide

end Release

end ReleaseInstaller
