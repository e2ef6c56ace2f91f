import ReleaseInstaller.Proofs.Json.SchemaDocument
import ReleaseInstaller.Proofs.Project.Agreement
import ReleaseInstaller.Proofs.Project.Widening

/-! The published schema and the reader of release descriptions, compared record by record. What the
schema admits is read, with each value in its place. What is read the schema admits, unless there is
an integer where it wants a text. -/
namespace ReleaseInstaller
open Json

/-- What an ignore rule shows of the values that describe it. -/
structure IgnoreRule.Shows (v : Json) (r : IgnoreRule) : Prop where
  os : v.Under "goos" (ShowsText · r.os)
  arch : v.Under "goarch" (ShowsText · r.arch)
  revision : v.Under "goarm" (ShowsOptional · r.revision)

theorem IgnoreRule.agrees : Agrees Project.ignoreSchema (read? valueReader) Shows [[]]
    (inMember "goarch" [[]] ++ inMember "goarm" [[]]) := by
  refine (Agrees.record (fun _ _ => read?_eq_some_iff) ?_ ?_).named
  · intro members hkeys hadmits
    simp only [List.forall_mem_cons, admitsMember_optional] at hadmits
    obtain ⟨harch, hrevision, hos, -⟩ := hadmits
    obtain ⟨arch, harch, hshowsArch⟩ := agrees_textOrInteger.exists_withDefault hkeys harch ""
    obtain ⟨revision, hrevision, hshowsRevision⟩ :=
      agrees_textOrInteger.optional.exists_withDefault hkeys hrevision none
    obtain ⟨os, hos, hshowsOs⟩ := agrees_text.exists_withDefault hkeys hos ""
    exact ⟨⟨os, arch, revision⟩, ⟨hos, harch, hrevision⟩,
      hshowsOs, hshowsArch, hshowsRevision⟩
  · rintro members r hkeys _ ⟨hos, harch, hrevision⟩
    simp only [List.forall_mem_cons, admitsMember_optional]
    rw [agrees_textOrInteger.under_admits_iff hkeys allAt_nil harch,
      agrees_textOrInteger.optional.under_admits_iff hkeys allAt_nil hrevision,
      agrees_text.under_admits_iff hkeys allAt_nil hos, allAt_append]
    exact and_congr_right fun _ => and_iff_left ⟨allAt_nil, nofun⟩

/-- What a build shows of the values that describe it. -/
structure Build.Shows (v : Json) (b : Build) : Prop where
  binary : v.Under "binary" (ShowsText · b.binary)
  systems : v.Under "goos" (ShowsList ShowsText · b.systems)
  archs : v.Under "goarch" (ShowsList ShowsText · b.archs)
  revisions : v.Under "goarm" (ShowsList ShowsText · b.revisions)
  ignored : v.Under "ignore" (ShowsList IgnoreRule.Shows · b.ignored)

theorem Build.agrees : Agrees Project.buildSchema (read? valueReader) Shows
    ([] :: inMember "ignore" (inItems [[]]))
    (inMember "goarch" (inItems [[]]) ++ inMember "goarm" (inItems [[]]) ++
      inMember "ignore" (inItems (inMember "goarch" [[]] ++ inMember "goarm" [[]]))) := by
  refine (Agrees.record (fun _ _ => read?_eq_some_iff) ?_ ?_).named
  · intro members hkeys hadmits
    simp only [List.forall_mem_cons, admitsMember_optional] at hadmits
    obtain ⟨hbinary, harchs, hrevisions, hsystems, hignored, -⟩ := hadmits
    obtain ⟨binary, hbinary, hshowsBinary⟩ := agrees_text.exists_withDefault hkeys hbinary ""
    obtain ⟨archs, harchs, hshowsArchs⟩ :=
      agrees_textOrInteger.list.exists_withDefault hkeys harchs []
    obtain ⟨revisions, hrevisions, hshowsRevisions⟩ :=
      agrees_textOrInteger.list.exists_withDefault hkeys hrevisions []
    obtain ⟨systems, hsystems, hshowsSystems⟩ :=
      agrees_text.list.exists_withDefault hkeys hsystems []
    obtain ⟨ignored, hignored, hshowsIgnored⟩ :=
      IgnoreRule.agrees.list.exists_withDefault hkeys hignored []
    exact ⟨⟨binary, systems, archs, revisions, ignored⟩,
      ⟨hbinary, hsystems, harchs, hrevisions, hignored⟩,
      hshowsBinary, hshowsSystems, hshowsArchs, hshowsRevisions, hshowsIgnored⟩
  · rintro members b hkeys hobjects ⟨hbinary, hsystems, harchs, hrevisions, hignored⟩
    simp only [List.forall_mem_cons, admitsMember_optional]
    rw [agrees_text.under_admits_iff hkeys allAt_nil hbinary,
      agrees_textOrInteger.list.under_admits_iff hkeys allAt_nil harchs,
      agrees_textOrInteger.list.under_admits_iff hkeys allAt_nil hrevisions,
      agrees_text.list.under_admits_iff hkeys allAt_nil hsystems,
      IgnoreRule.agrees.list.under_admits_iff hkeys hobjects hignored, allAt_append, allAt_append]
    constructor
    · rintro ⟨-, harchs, hrevisions, -, hignored, -⟩
      exact ⟨⟨harchs, hrevisions⟩, hignored⟩
    · rintro ⟨⟨harchs, hrevisions⟩, hignored⟩
      exact ⟨allAt_nil, harchs, hrevisions, allAt_nil, hignored, nofun⟩

/-- What a format override shows of the values that describe it. -/
structure FormatOverride.Shows (v : Json) (o : FormatOverride) : Prop where
  os : v.Under "goos" (ShowsText · o.os)
  format : v.Under "format" (ShowsText · o.format)

theorem FormatOverride.agrees :
    Agrees Project.formatOverrideSchema (read? valueReader) Shows [[]] [] := by
  refine (Agrees.record (fun _ _ => read?_eq_some_iff) ?_ ?_).named
  · intro members hkeys hadmits
    simp only [List.forall_mem_cons, admitsMember_required] at hadmits
    obtain ⟨⟨hthereFormat, hformat⟩, ⟨hthereOs, hos⟩, -⟩ := hadmits
    obtain ⟨format, hformat, hshowsFormat⟩ := agrees_text.exists_required hkeys hthereFormat hformat
    obtain ⟨os, hos, hshowsOs⟩ := agrees_text.exists_required hkeys hthereOs hos
    exact ⟨⟨os, format⟩, ⟨hos, hformat⟩, hshowsOs, hshowsFormat⟩
  · rintro members o hkeys _ ⟨hos, hformat⟩
    simp only [List.forall_mem_cons, admitsMember_required]
    obtain ⟨hthereOs, hos⟩ := (bind_lookup_eq_some_iff hkeys.nodup "").mp hos
    obtain ⟨hthereFormat, hformat⟩ := (bind_lookup_eq_some_iff hkeys.nodup "").mp hformat
    rw [agrees_text.under_admits_iff hkeys allAt_nil hos,
      agrees_text.under_admits_iff hkeys allAt_nil hformat]
    exact iff_of_true ⟨⟨hthereFormat, allAt_nil⟩, ⟨hthereOs, allAt_nil⟩, nofun⟩ allAt_nil

namespace Project

/-- What a repository shows of the values that describe it. -/
structure ShowsRepo (v : Json) (r : Repo) : Prop where
  owner : v.Under "owner" (ShowsText · r.owner)
  name : v.Under "name" (ShowsText · r.name)

theorem agrees_repo : Agrees repoSchema (readRepo? valueReader) ShowsRepo [[]] [] := by
  refine (Agrees.record (fun _ _ => readRepo?_eq_some_iff) ?_ ?_).named
  · intro members hkeys hadmits
    simp only [List.forall_mem_cons, admitsMember_optional] at hadmits
    obtain ⟨hname, howner, -⟩ := hadmits
    obtain ⟨name, hname, hshowsName⟩ := agrees_text.exists_withDefault hkeys hname ""
    obtain ⟨owner, howner, hshowsOwner⟩ := agrees_text.exists_withDefault hkeys howner ""
    exact ⟨⟨owner, name⟩, ⟨howner, hname⟩, hshowsOwner, hshowsName⟩
  · rintro members r hkeys _ ⟨howner, hname⟩
    simp only [List.forall_mem_cons, admitsMember_optional]
    rw [agrees_text.under_admits_iff hkeys allAt_nil hname,
      agrees_text.under_admits_iff hkeys allAt_nil howner]
    exact iff_of_true ⟨allAt_nil, allAt_nil, nofun⟩ allAt_nil

/-- The place of a release shows under the host of the release. -/
def ShowsRelease (v : Json) (r : Repo) : Prop := v.Under "github" (ShowsRepo · r)

theorem agrees_release : Agrees releaseSchema (readRelease? valueReader) ShowsRelease
    ([] :: inMember "github" [[]]) [] := by
  refine (Agrees.record (fun _ _ => readRelease?_eq_some_iff) ?_ ?_).named
  · intro members hkeys hadmits
    simp only [List.forall_mem_cons, admitsMember_optional] at hadmits
    obtain ⟨r, hr, hshows⟩ := agrees_repo.exists_withDefault hkeys hadmits.1 ⟨"", ""⟩
    exact ⟨r, hr, hshows⟩
  · intro members r hkeys hobjects hr
    simp only [List.forall_mem_cons, admitsMember_optional]
    rw [agrees_repo.under_admits_iff hkeys hobjects hr]
    exact iff_of_true ⟨allAt_nil, nofun⟩ allAt_nil

/-- What the names and forms of archives show of the values that describe them. -/
structure Archive.Shows (v : Json) (a : Archive) : Prop where
  nameTemplate : v.Under "name_template" (ShowsOptional · a.nameTemplate)
  format : v.Under "format" (ShowsOptional · a.format)
  formatOverrides : v.Under "format_overrides" (ShowsList FormatOverride.Shows · a.formatOverrides)
  replacements : v.Under "replacements" (ShowsDictionary · a.replacements)
  wrapInDirectory : v.Under "wrap_in_directory" (ShowsTruth · a.wrapInDirectory)

theorem agrees_archive : Agrees archiveSchema (readArchive? valueReader) Archive.Shows
    ([] :: inMember "format_overrides" (inItems [[]])) [] := by
  refine (Agrees.record (fun _ _ => readArchive?_eq_some_iff) ?_ ?_).named
  · intro members hkeys hadmits
    simp only [List.forall_mem_cons, admitsMember_optional] at hadmits
    obtain ⟨hformat, hoverrides, htemplate, hreplacements, hwrap, -⟩ := hadmits
    obtain ⟨format, hformat, hshowsFormat⟩ :=
      agrees_text.optional.exists_withDefault hkeys hformat none
    obtain ⟨overrides, hoverrides, hshowsOverrides⟩ :=
      FormatOverride.agrees.list.exists_withDefault hkeys hoverrides []
    obtain ⟨template, htemplate, hshowsTemplate⟩ :=
      agrees_text.optional.exists_withDefault hkeys htemplate none
    obtain ⟨replacements, hreplacements, hshowsReplacements⟩ :=
      agrees_dictionary.exists_withDefault hkeys hreplacements ∅
    obtain ⟨wrap, hwrap, hshowsWrap⟩ := agrees_truth.exists_withDefault hkeys hwrap false
    exact ⟨⟨template, format, overrides, replacements, wrap⟩,
      ⟨htemplate, hformat, hoverrides, hreplacements, hwrap⟩,
      hshowsTemplate, hshowsFormat, hshowsOverrides, hshowsReplacements, hshowsWrap⟩
  · rintro members a hkeys hobjects ⟨htemplate, hformat, hoverrides, hreplacements, hwrap⟩
    simp only [List.forall_mem_cons, admitsMember_optional]
    rw [agrees_text.optional.under_admits_iff hkeys allAt_nil hformat,
      FormatOverride.agrees.list.under_admits_iff hkeys hobjects hoverrides,
      agrees_text.optional.under_admits_iff hkeys allAt_nil htemplate,
      agrees_dictionary.under_admits_iff hkeys allAt_nil hreplacements,
      agrees_truth.under_admits_iff hkeys allAt_nil hwrap]
    exact iff_of_true ⟨allAt_nil, allAt_nil, allAt_nil, allAt_nil, allAt_nil, nofun⟩ allAt_nil

/-- The template for checksum files shows under its name. -/
def ShowsChecksum (v : Json) (t : Option String) : Prop :=
  v.Under "name_template" (ShowsOptional · t)

theorem agrees_checksum :
    Agrees checksumSchema (readChecksum? valueReader) ShowsChecksum [[]] [] := by
  refine (Agrees.record (fun _ _ => readChecksum?_eq_some_iff) ?_ ?_).named
  · intro members hkeys hadmits
    simp only [List.forall_mem_cons, admitsMember_optional] at hadmits
    obtain ⟨t, ht, hshows⟩ := agrees_text.optional.exists_withDefault hkeys hadmits.1 none
    exact ⟨t, ht, hshows⟩
  · intro members t hkeys _ ht
    simp only [List.forall_mem_cons, admitsMember_optional]
    rw [agrees_text.optional.under_admits_iff hkeys allAt_nil ht]
    exact iff_of_true ⟨allAt_nil, nofun⟩ allAt_nil

/-- What a project shows of the values that describe it. -/
structure Shows (v : Json) (p : Project) : Prop where
  name : v.Under "project_name" (ShowsOptional · p.name)
  repo : v.Under "release" (ShowsRelease · p.repo)
  builds : v.Under "builds" (ShowsList Build.Shows · p.builds)
  archive : v.Under "archive" (Archive.Shows · p.archive)
  checksumTemplate : v.Under "checksum" (ShowsChecksum · p.checksumTemplate)

/-- Where a description has records. -/
def recordPlaces : List (List Step) := records.map RecordAt.place

/-- Where the reader takes an integer for a text. -/
def numeralPlaces : List (List Step) :=
  [[.member "builds", .item, .member "goarch", .item],
    [.member "builds", .item, .member "goarm", .item],
    [.member "builds", .item, .member "ignore", .item, .member "goarch"],
    [.member "builds", .item, .member "ignore", .item, .member "goarm"]]

theorem agrees : Agrees schema ofJson? Shows recordPlaces numeralPlaces := by
  refine Agrees.record (fun _ _ => read?_eq_some_iff) ?_ ?_
  · intro members hkeys hadmits
    simp only [List.forall_mem_cons, admitsMember_optional] at hadmits
    obtain ⟨harchive, hbuilds, hchecksum, hname, hrepo, -⟩ := hadmits
    obtain ⟨archive, harchive, hshowsArchive⟩ :=
      agrees_archive.exists_withDefault hkeys harchive default
    obtain ⟨builds, hbuilds, hshowsBuilds⟩ := Build.agrees.list.exists_withDefault hkeys hbuilds []
    obtain ⟨checksum, hchecksum, hshowsChecksum⟩ :=
      agrees_checksum.exists_withDefault hkeys hchecksum none
    obtain ⟨name, hname, hshowsName⟩ := agrees_text.optional.exists_withDefault hkeys hname none
    obtain ⟨repo, hrepo, hshowsRepo⟩ :=
      agrees_release.exists_withDefault hkeys hrepo ⟨"", ""⟩
    exact ⟨⟨name, repo, builds, archive, checksum⟩,
      ⟨hname, hrepo, hbuilds, harchive, hchecksum⟩,
      hshowsName, hshowsRepo, hshowsBuilds, hshowsArchive, hshowsChecksum⟩
  · rintro members p hkeys hobjects ⟨hname, hrepo, hbuilds, harchive, hchecksum⟩
    simp only [List.forall_mem_cons, admitsMember_optional]
    rw [agrees_archive.under_admits_iff hkeys (hobjects.subset (by decide)) harchive,
      Build.agrees.list.under_admits_iff hkeys (hobjects.subset (by decide)) hbuilds,
      agrees_checksum.under_admits_iff hkeys (hobjects.subset (by decide)) hchecksum,
      agrees_text.optional.under_admits_iff hkeys allAt_nil hname,
      agrees_release.under_admits_iff hkeys (hobjects.subset (by decide)) hrepo]
    constructor
    · rintro ⟨-, hbuilds, -⟩
      exact hbuilds
    · intro hbuilds
      exact ⟨allAt_nil, hbuilds, allAt_nil, allAt_nil, allAt_nil, nofun⟩

theorem validates_schemaDocument_iff {v : Json} (hkeys : v.HasDistinctKeys) :
    Validates schemaDocument v ↔ schema.Admits v :=
  validates_document_iff (by decide) hkeys

/-- A description that can be read is valid against the published schema exactly if it writes no
integer for a text: where the reader takes both, the schema asks for a text. -/
theorem validates_iff_of_ofJson? {v : Json} {p : Project} (hkeys : v.HasDistinctKeys)
    (hobjects : v.AllAt recordPlaces IsObject) (h : ofJson? v = some p) :
    Validates schemaDocument v ↔ v.AllAt numeralPlaces IsNoInteger := by
  rw [validates_schemaDocument_iff hkeys]
  exact agrees.admits_iff v p hkeys hobjects h

/-- A description with most of the parts that the reader knows. -/
def sampleDescription : Json :=
  object [("project_name", text "foo"),
    ("release", object [("github", object [("owner", text "o"), ("name", text "r")])]),
    ("builds", array [object [("goos", array [text "linux"]), ("goarch", array [text "arm"]),
      ("goarm", array [text "6"]), ("ignore", array [object [("goos", text "linux"),
        ("goarm", null)]]), ("main", text "./cmd")]]),
    ("archive", object [("format_overrides", array [object [("goos", text "windows"),
      ("format", text "zip")]]), ("replacements", object [("linux", text "Linux")])]),
    ("checksum", object [("name_template", text "sums.txt")])]

/-- What the description describes. -/
def sampleProject : Project where
  name := some "foo"
  repo := ⟨"o", "r"⟩
  builds := [⟨"", ["linux"], ["arm"], ["6"], [⟨"linux", "", none⟩]⟩]
  archive := ⟨none, none, [⟨"windows", "zip"⟩], Dictionary.ofList [("linux", "Linux")], false⟩
  checksumTemplate := some "sums.txt"

theorem hasDistinctKeys_sampleDescription : sampleDescription.HasDistinctKeys := by
  simp [sampleDescription, hasDistinctKeys_object, hasDistinctKeys_array, hasDistinctKeys_of_ne]

theorem sampleDescription_records : sampleDescription.AllAt recordPlaces IsObject := by
  simp [AllAt, recordPlaces, records, sampleDescription, holds_member, holds_item, holds_here, IsObject]

theorem ofJson?_sampleDescription : ofJson? sampleDescription = some sampleProject := by
  decide

theorem validates_iff_of_ofJson?_sample :
    Validates schemaDocument sampleDescription ↔ sampleDescription.AllAt numeralPlaces IsNoInteger :=
  validates_iff_of_ofJson? hasDistinctKeys_sampleDescription sampleDescription_records
    ofJson?_sampleDescription

/-- A description with numbers as revisions. -/
def numericRevisions : Json :=
  object [("builds", array [object [("goarm", array [integer 6, integer 7])]])]

/-- The schema does not admit the numbers of which it says itself that they are accepted. -/
theorem numericRevisions_read_but_invalid :
    numericRevisions.HasDistinctKeys ∧ numericRevisions.AllAt recordPlaces IsObject ∧
      ofJson? numericRevisions =
        some { (default : Project) with builds := [⟨"", [], [], ["6", "7"], []⟩] } ∧
      ¬ Validates schemaDocument numericRevisions := by
  have hkeys : numericRevisions.HasDistinctKeys := by
    simp [numericRevisions, hasDistinctKeys_object, hasDistinctKeys_array, hasDistinctKeys_of_ne]
  have hobjects : numericRevisions.AllAt recordPlaces IsObject := by
    simp [AllAt, recordPlaces, records, numericRevisions, holds_member, holds_item, holds_here, IsObject]
  have hread : ofJson? numericRevisions =
      some { (default : Project) with builds := [⟨"", [], [], ["6", "7"], []⟩] } := by decide
  refine ⟨hkeys, hobjects, hread, fun hvalid => ?_⟩
  have hadmits := (validates_schemaDocument_iff hkeys).mp hvalid
  have hnumerals := (agrees.admits_iff _ _ hkeys hobjects hread).mp hadmits
  refine hnumerals [.member "builds", .item, .member "goarm", .item] (by decide) (integer 6) ?_ 6 rfl
  simp [numericRevisions, holds_member, holds_item, holds_here]

/-- A description that is valid against the published schema can be read, and what it says shows in
the project. -/
theorem exists_ofJson?_of_validates {v : Json} (hkeys : v.HasDistinctKeys)
    (h : Validates schemaDocument v) : ∃ p, ofJson? v = some p ∧ Shows v p :=
  agrees.reads v hkeys ((validates_schemaDocument_iff hkeys).mp h)

theorem exists_ofJson?_of_validates_sample :
    Validates schemaDocument sampleDescription ∧
      ∃ p, ofJson? sampleDescription = some p ∧ Shows sampleDescription p := by
  have hnumerals : sampleDescription.AllAt numeralPlaces IsNoInteger := by
    simp [AllAt, numeralPlaces, sampleDescription, holds_member, holds_item, holds_here,
      IsNoInteger]
  have hadmits := (agrees.admits_iff _ _ hasDistinctKeys_sampleDescription
    sampleDescription_records ofJson?_sampleDescription).mpr hnumerals
  have hvalid := (validates_schemaDocument_iff hasDistinctKeys_sampleDescription).mpr hadmits
  exact ⟨hvalid, exists_ofJson?_of_validates hasDistinctKeys_sampleDescription hvalid⟩

end Project

end ReleaseInstaller
