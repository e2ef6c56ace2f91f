import ReleaseInstaller.Installer.Rendering
import ReleaseInstaller.Proofs.Installer.Filling
import ReleaseInstaller.Proofs.Installer.Inert
import ReleaseInstaller.Proofs.Release.Defaults

/-! From a release to the text of its script. The template finds every value that it asks for, so all
that can be wrong with the release of a project is the names that it gives to its files. -/
namespace ReleaseInstaller.Installer
open NameTemplate Release

variable {i : Installer} {r : Release}

theorem renderValues?_templateKey (values : Template.Scope) :
    Bundle.renderValues? templateKey values = some (fill values) := by
  have hfind : Bundle.find? Bundle.templates templateKey =
      some ⟨"installer.sh", "installer/installer.sh"⟩ := by decide
  rw [Bundle.renderValues?, hfind, Option.map_some]

theorem render_eq (h : i.binaries ≠ []) : i.render = .ok i.script := by
  rw [render, Bundle.render?, renderValues?_templateKey, fill_draft h]
  rfl

/-- The template adds no failure of its own: an installer is named after a first build, so there is
always something to install. -/
theorem rendered_eq (r : Release) (date : Option String) :
    rendered r date = ((ofRelease r date).map script).mapError .installer := by
  unfold rendered
  cases hi : ofRelease r date with
  | error fault => rfl
  | ok i =>
    obtain ⟨archiveName, checksumName, primary, rest, -, -, hb, rfl⟩ := ofRelease_eq_ok_iff.mp hi
    have hbinaries : (ofParts r primary archiveName checksumName date).binaries ≠ [] := by
      simp [ofParts, hb]
    simp only [Except.mapError, ok_bind, render_eq hbinaries, Except.map]

/-- The archive is named first, so its name is the first to be at fault. -/
theorem ofRelease_eq {primary : Build} {rest : List Build} (hb : r.builds = primary :: rest)
    (date : Option String) : ofRelease r date =
      match NameTemplate.assign archiveTarget r.archive.nameTemplate,
        NameTemplate.assign checksumTarget r.checksumTemplate with
      | .ok archiveName, .ok checksumName => .ok (ofParts r primary archiveName checksumName date)
      | .ok _, .error refusal => .error (.template refusal)
      | .error refusal, _ => .error (.template refusal) := by
  unfold ofRelease Installer.assign
  cases NameTemplate.assign archiveTarget r.archive.nameTemplate with
  | error refusal => rfl
  | ok archiveName =>
    cases NameTemplate.assign checksumTarget r.checksumTemplate with
    | error refusal => rfl
    | ok checksumName =>
      rw [hb]
      rfl

/-- The release of a project passes its check and is made for some platform, and there is a text for
it unless one of its two names cannot be translated. -/
theorem rendered_of_ofProject {p : Project} {given : Option Repo}
    (h : Release.ofProject p given = .ok r) (date : Option String) :
    r.validate = .ok () ∧ (∀ b ∈ r.builds, IsFilledBuild b) ∧
    ∃ primary rest, r.builds = primary :: rest ∧
      rendered r date =
        match NameTemplate.assign archiveTarget r.archive.nameTemplate,
          NameTemplate.assign checksumTarget r.checksumTemplate with
        | .ok archiveName, .ok checksumName =>
          .ok (ofParts r primary archiveName checksumName date).script
        | .ok _, .error refusal => .error (.installer (.template refusal))
        | .error refusal, _ => .error (.installer (.template refusal)) := by
  obtain ⟨repo, -, hvalid, rfl⟩ := ofProject_eq_ok_iff.mp h
  obtain ⟨primary, rest, hb⟩ := List.exists_cons_of_ne_nil (builds_withDefaults_ne_nil p repo)
  refine ⟨hvalid, isFilledBuild_withDefaults, primary, rest, hb, ?_⟩
  rw [rendered_eq, ofRelease_eq hb]
  split <;> rfl

theorem rendered_of_ofProject_default : ∃ r primary rest text,
    Release.ofProject default (some ⟨"foo", "bar"⟩) = .ok r ∧ r.validate = .ok () ∧
      r.builds = primary :: rest ∧ IsFilledBuild primary ∧ rendered r (some "today") = .ok text := by
  have hr := @ofProject_default ⟨"foo", "bar"⟩ (by decide) (by decide)
  obtain ⟨hvalid, hfilled, primary, rest, hb, htext⟩ := rendered_of_ofProject hr (some "today")
  have harchive : NameTemplate.assign archiveTarget
      (withDefaults default ⟨"foo", "bar"⟩).archive.nameTemplate = .ok _ := assign_armArchive
  have hchecksum : NameTemplate.assign checksumTarget
      (withDefaults default ⟨"foo", "bar"⟩).checksumTemplate = .ok _ := assign_armChecksum
  have hprimary : primary ∈ (withDefaults default ⟨"foo", "bar"⟩).builds :=
    hb ▸ List.mem_cons_self
  rw [harchive, hchecksum] at htext
  exact ⟨_, primary, rest, _, hr, hvalid, hb, hfilled primary hprimary, htext⟩

end ReleaseInstaller.Installer
