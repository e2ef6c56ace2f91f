import ReleaseInstaller.Installer.Basic
import ReleaseInstaller.Proofs.NameTemplate.Translation
import ReleaseInstaller.Proofs.Release.Validity
import ReleaseInstaller.Proofs.Shell.Word
import ReleaseInstaller.Release.Defaults

/-! What the values of an installer are made of when its release is valid. -/
namespace ReleaseInstaller

open Shell NameTemplate Release

variable {r : Release} {date : Option String} {i : Installer}

/-- Two words with a slash between them. -/
def IsPlatformName (s : String) : Prop :=
  ∃ os arch, s = os ++ "/" ++ arch ∧ isWord os = true ∧ isWord arch = true

theorem IsPlatformName.isWord {s : String} (h : IsPlatformName s) : isWord s = true := by
  obtain ⟨os, arch, rfl, hos, harch⟩ := h
  have hslash : Shell.isWord "/" = true := by decide
  exact isWord_append (isWord_append hos hslash) harch

namespace Installer

/-- Every value stays within the place that the script has for it. -/
structure IsInert (i : Installer) : Prop where
  version : i.version = currentVersion
  projectName : isWord i.projectName = true
  owner : isWord i.owner = true
  repo : isWord i.repo = true
  repoUrl : i.repoUrl = "https://github.com/" ++ (i.owner ++ "/" ++ i.repo)
  binary : isWord i.binary = true
  binaries_ne_nil : i.binaries ≠ []
  binaries : ∀ b ∈ i.binaries, isWord b = true
  format : isWord i.format = true
  archiveName : ∃ e, i.archiveName = archiveTarget ++ e ∧ IsExpression e.toList
  checksumName : ∃ e, i.checksumName = checksumTarget ++ e ∧ IsExpression e.toList
  supported : ∀ p ∈ i.supported, IsPlatformName p
  excluded : ∀ p ∈ i.excluded, IsPlatformName p
  formatOverrides : ∀ a ∈ i.formatOverrides, isWord a.pattern = true ∧ isWord a.value = true
  replacements : ∀ a ∈ i.replacements, isWord a.pattern = true ∧ isWord a.value = true

theorem IsInert.isWord_repoUrl (h : i.IsInert) : isWord i.repoUrl = true := by
  have hpage : isWord "https://github.com/" = true := by decide
  have hslash : isWord "/" = true := by decide
  rw [h.repoUrl]
  exact isWord_append hpage (isWord_append (isWord_append h.owner hslash) h.repo)

theorem isExpression_append_of_isWord {target e : String} (ht : isWord target = true)
    (he : IsExpression e.toList) : IsExpression (target ++ e).toList := by
  rw [String.toList_append]
  exact (IsExpression.of_inert (isWord_iff.mp ht).2).append he

theorem IsInert.archiveName_isExpression (h : i.IsInert) : IsExpression i.archiveName.toList := by
  obtain ⟨e, heq, he⟩ := h.archiveName
  rw [heq]
  exact isExpression_append_of_isWord (by decide) he

theorem IsInert.checksumName_isExpression (h : i.IsInert) :
    IsExpression i.checksumName.toList := by
  obtain ⟨e, heq, he⟩ := h.checksumName
  rw [heq]
  exact isExpression_append_of_isWord (by decide) he

theorem ofRelease_eq_ok_iff : ofRelease r date = .ok i ↔ ∃ archiveName checksumName primary rest,
    NameTemplate.assign archiveTarget r.archive.nameTemplate = .ok archiveName ∧
      NameTemplate.assign checksumTarget r.checksumTemplate = .ok checksumName ∧
        r.builds = primary :: rest ∧ i = ofParts r primary archiveName checksumName date := by
  unfold ofRelease
  constructor
  · intro h
    obtain ⟨archiveName, harchive, h⟩ := bind_eq_ok.mp h
    obtain ⟨checksumName, hchecksum, h⟩ := bind_eq_ok.mp h
    cases hb : r.builds with
    | nil =>
      rw [hb] at h
      contradiction
    | cons primary rest =>
      rw [hb] at h
      exact ⟨archiveName, checksumName, primary, rest, mapError_eq_ok.mp harchive,
        mapError_eq_ok.mp hchecksum, rfl, (Except.ok.inj h).symm⟩
  · rintro ⟨archiveName, checksumName, primary, rest, harchive, hchecksum, hb, rfl⟩
    refine bind_eq_ok.mpr ⟨archiveName, mapError_eq_ok.mpr harchive, ?_⟩
    refine bind_eq_ok.mpr ⟨checksumName, mapError_eq_ok.mpr hchecksum, ?_⟩
    rw [hb]
    rfl

/-- The date of an installer goes into it as it is, and nothing else depends on it. -/
theorem ofRelease_redated (h : ofRelease r date = .ok i) : i.version = currentVersion ∧
    i.generatedAt = date ∧ ∀ date', ofRelease r date' = .ok { i with generatedAt := date' } := by
  obtain ⟨archiveName, checksumName, primary, rest, harchive, hchecksum, hb, rfl⟩ :=
    ofRelease_eq_ok_iff.mp h
  refine ⟨rfl, rfl, fun date' => ?_⟩
  exact ofRelease_eq_ok_iff.mpr
    ⟨archiveName, checksumName, primary, rest, harchive, hchecksum, hb, rfl⟩

theorem exists_line_of_assign {target template : String} {a : Assignment}
    (h : NameTemplate.assign target template = .ok a) :
    ∃ e, a.line = target ++ e ∧ IsExpression e.toList := by
  obtain ⟨t, -, hn, rfl⟩ := assign_eq_ok_iff.mp h
  refine ⟨_, rfl, ?_⟩
  rw [String.toList_ofList]
  exact isExpression_flatMap_spelling hn

theorem isPlatformName_display {p : Platform} (hos : isWord p.os = true)
    (harch : isWord p.arch = true) : IsPlatformName p.display :=
  ⟨p.os, p.arch, rfl, hos, harch⟩

theorem isPlatformName_ofRevision {os arch revision : String} (hos : isWord os = true)
    (harch : isWord arch = true) (hrevision : isWord revision = true) :
    IsPlatformName (Platform.ofRevision os arch revision).display := by
  have hv : isWord "v" = true := by decide
  exact isPlatformName_display hos (isWord_append (isWord_append harch hv) hrevision)

theorem isPlatformName_expand {revisions : List String} {os arch : String} (hos : isWord os = true)
    (harch : isWord arch = true) (hrevisions : ∀ v ∈ revisions, isWord v = true) :
    ∀ p ∈ Platform.expand revisions os arch, IsPlatformName p.display := by
  intro p hp
  unfold Platform.expand at hp
  split at hp
  · obtain ⟨revision, hrevision, rfl⟩ := List.mem_map.mp hp
    exact isPlatformName_ofRevision hos harch (hrevisions revision hrevision)
  · obtain rfl := List.mem_singleton.mp hp
    exact isPlatformName_display hos harch

theorem isPlatformName_ignored {rule : IgnoreRule} (h : IsInertRule rule) :
    IsPlatformName rule.platform.display := by
  unfold IgnoreRule.platform
  split
  · rename_i revision hrevision
    exact isPlatformName_ofRevision h.os h.arch (h.revision revision hrevision)
  · exact isPlatformName_display h.os h.arch

theorem isPlatformName_supported {b : Build} (h : IsInertBuild b) :
    ∀ p ∈ (PlatformMatrix.ofBuild b).supported, IsPlatformName p.display := by
  intro p hp
  rw [PlatformMatrix.ofBuild, List.mem_eraseDups, List.mem_flatMap] at hp
  obtain ⟨os, hos, hp⟩ := hp
  obtain ⟨arch, harch, hp⟩ := List.mem_flatMap.mp hp
  exact isPlatformName_expand (h.systems os hos) (h.archs arch harch) h.revisions p hp

theorem isPlatformName_excluded {b : Build} (h : IsInertBuild b) :
    ∀ p ∈ (PlatformMatrix.ofBuild b).excluded, IsPlatformName p.display := by
  intro p hp
  rw [PlatformMatrix.ofBuild, List.mem_eraseDups, List.mem_map] at hp
  obtain ⟨rule, hrule, rfl⟩ := hp
  exact isPlatformName_ignored (h.ignored rule hrule)

theorem isWord_of_mem_supportedFormats {format : String} (h : format ∈ supportedFormats) :
    isWord format = true := by
  have hall : ∀ f ∈ supportedFormats, isWord f = true := by decide
  exact hall format h

theorem isWord_arms {d : Dictionary} (hkeys : ∀ s ∈ d.keys, isWord s = true)
    (hvalues : ∀ s ∈ d.values, isWord s = true) :
    ∀ a ∈ arms d, isWord a.pattern = true ∧ isWord a.value = true := by
  intro a ha
  obtain ⟨e, he, rfl⟩ := List.mem_map.mp ha
  exact ⟨hkeys e.1 (List.mem_map_of_mem he), hvalues e.2 (List.mem_map_of_mem he)⟩

/-- The values of a valid release are inert, and so are those that are computed from them. -/
theorem isInert_of_isValid (hr : r.IsValid) (h : ofRelease r date = .ok i) : i.IsInert := by
  obtain ⟨archiveName, checksumName, primary, rest, harchive, hchecksum, hb, rfl⟩ :=
    ofRelease_eq_ok_iff.mp h
  have hprimary : IsInertBuild primary := hr.builds primary (by simp [hb])
  refine {
    version := rfl
    projectName := hr.projectName
    owner := hr.owner
    repo := hr.repoName
    repoUrl := rfl
    binary := hprimary.binary
    binaries_ne_nil := by simp [ofParts, hb]
    binaries := ?_
    format := isWord_of_mem_supportedFormats hr.archive.format
    archiveName := exists_line_of_assign harchive
    checksumName := exists_line_of_assign hchecksum
    supported := ?_
    excluded := ?_
    formatOverrides := isWord_arms hr.archive.overrideSystems fun f hf =>
      isWord_of_mem_supportedFormats (hr.archive.overrideFormats f hf)
    replacements := isWord_arms hr.archive.replaced hr.archive.replacements }
  · intro b hmem
    obtain ⟨build, hbuild, rfl⟩ := List.mem_map.mp hmem
    exact (hr.builds build hbuild).binary
  · intro p hp
    obtain ⟨platform, hplatform, rfl⟩ := List.mem_map.mp hp
    exact isPlatformName_supported hprimary platform hplatform
  · intro p hp
    obtain ⟨platform, hplatform, rfl⟩ := List.mem_map.mp hp
    exact isPlatformName_excluded hprimary platform hplatform

/-- A valid release whose names can be translated has an installer, with inert values. -/
theorem exists_ofRelease {archiveName checksumName : Assignment} (hr : r.validate = .ok ())
    (harchive : NameTemplate.assign archiveTarget r.archive.nameTemplate = .ok archiveName)
    (hchecksum : NameTemplate.assign checksumTarget r.checksumTemplate = .ok checksumName)
    (date : Option String) : ∃ primary rest, r.builds = primary :: rest ∧
      ofRelease r date = .ok (ofParts r primary archiveName checksumName date) ∧
      (ofParts r primary archiveName checksumName date).IsInert := by
  have hvalid := validate_eq_ok_iff.mp hr
  obtain ⟨primary, rest, hb⟩ := List.exists_cons_of_ne_nil hvalid.builds_ne_nil
  have hi : ofRelease r date = .ok (ofParts r primary archiveName checksumName date) :=
    ofRelease_eq_ok_iff.mpr
      ⟨archiveName, checksumName, primary, rest, harchive, hchecksum, hb, rfl⟩
  exact ⟨primary, rest, hb, hi, isInert_of_isValid hvalid hi⟩

/-- A release that excludes platforms, and has formats and names of its own for some. -/
def armRelease : Release where
  projectName := "tool"
  repo := ⟨"owner", "tool"⟩
  builds := [
    { binary := "tool"
      systems := ["linux", "darwin", "windows"]
      archs := ["amd64", "arm"]
      revisions := ["6", "7"]
      ignored := [⟨"darwin", "arm", some "6"⟩, ⟨"plan9", "386", none⟩] }]
  archive :=
    { nameTemplate := defaultNameTemplate
      format := "tar.gz"
      formatOverrides := .ofList [("windows", "zip")]
      replacements := .ofList [("darwin", "macos"), ("amd64", "x86_64")]
      wrapInDirectory := true }
  checksumTemplate := defaultChecksumTemplate

theorem validate_armRelease : armRelease.validate = .ok () := by
  rw [← toOption_eq_some_iff]
  decide

theorem assign_armArchive : NameTemplate.assign archiveTarget armRelease.archive.nameTemplate =
    .ok ⟨archiveTarget, "$\x7bBINARY\x7d_$\x7bVERSION\x7d_$\x7bOS\x7d_$\x7bARCH\x7d"⟩ := by
  rw [← toOption_eq_some_iff]
  decide +kernel

theorem assign_armChecksum : NameTemplate.assign checksumTarget armRelease.checksumTemplate =
    .ok ⟨checksumTarget, "$\x7bPROJECT_NAME\x7d_$\x7bVERSION\x7d_checksums.txt"⟩ := by
  rw [← toOption_eq_some_iff]
  decide +kernel

end Installer

end ReleaseInstaller
