import ReleaseInstaller.Proofs.Json.Overlooking
import ReleaseInstaller.Release.Defaults

/-! Descriptions that say more than is read. Members that a record does not know, and the order in
which its members come, make no difference to the project. -/
namespace ReleaseInstaller
open Json

/-- Where a document has records of some kind, and the fields of such a record. -/
structure RecordAt where
  place : List Step
  fields : List String
  deriving DecidableEq, Repr

namespace RecordAt

/-- The record is extended in a document where it stands. -/
def IsWidened (r : RecordAt) (v v' : Json) : Prop := ChangedAt (IsExtended r.fields) r.place v v'

def change (r : RecordAt) : Change := ⟨r.place, IsExtended r.fields⟩

end RecordAt

/-- Extensions of a record with the given fields: of itself, and of records under its fields. -/
def extensionsOf (fields : List String) (parts : List (String × List Change)) : List Change :=
  ⟨[], IsExtended fields⟩ :: Change.inFields parts

theorem IgnoreRule.overlooks : Overlooks (read? valueReader) (extensionsOf fields []) := by
  refine .record (fun _ _ => read?_eq_some_iff) ?_
  rintro get get' r hfollows ⟨hos, harch, hrevision⟩
  exact ⟨(hfollows "goos" (by decide)).withDefault nofun hos,
    (hfollows "goarch" (by decide)).withDefault nofun harch,
    (hfollows "goarm" (by decide)).withDefault nofun hrevision⟩

theorem Build.overlooks : Overlooks (read? valueReader) (extensionsOf fields
    [("ignore", (extensionsOf IgnoreRule.fields []).map (Change.below .item))]) := by
  refine .record (fun _ _ => read?_eq_some_iff) ?_
  rintro get get' b hfollows ⟨hbinary, hsystems, harchs, hrevisions, hignored⟩
  refine ⟨(hfollows "binary" (by decide)).withDefault ?_ hbinary,
    (hfollows "goos" (by decide)).withDefault ?_ hsystems,
    (hfollows "goarch" (by decide)).withDefault ?_ harchs,
    (hfollows "goarm" (by decide)).withDefault ?_ hrevisions,
    (hfollows "ignore" (by decide)).withDefault ?_ hignored⟩
  all_goals simp [IgnoreRule.overlooks.list]

theorem FormatOverride.overlooks : Overlooks (read? valueReader) (extensionsOf fields []) := by
  refine .record (fun _ _ => read?_eq_some_iff) ?_
  rintro get get' o hfollows ⟨hos, hformat⟩
  rw [← follows_nil.mp (hfollows "goos" (by decide))] at hos
  rw [← follows_nil.mp (hfollows "format" (by decide))] at hformat
  exact ⟨hos, hformat⟩

namespace Project

theorem overlooks_repo : Overlooks (readRepo? valueReader) (extensionsOf repoFields []) := by
  refine .record (fun _ _ => readRepo?_eq_some_iff) ?_
  rintro get get' r hfollows ⟨howner, hname⟩
  exact ⟨(hfollows "owner" (by decide)).withDefault nofun howner,
    (hfollows "name" (by decide)).withDefault nofun hname⟩

theorem overlooks_release : Overlooks (readRelease? valueReader)
    (extensionsOf releaseFields [("github", extensionsOf repoFields [])]) := by
  refine .record (fun _ _ => readRelease?_eq_some_iff) ?_
  intro get get' r hfollows hr
  refine (hfollows "github" (by decide)).withDefault ?_ hr
  simp [overlooks_repo]

theorem overlooks_archive : Overlooks (readArchive? valueReader) (extensionsOf archiveFields
    [("format_overrides", (extensionsOf FormatOverride.fields []).map (Change.below .item))]) := by
  refine .record (fun _ _ => readArchive?_eq_some_iff) ?_
  rintro get get' a hfollows ⟨htemplate, hformat, hoverrides, hreplacements, hwrap⟩
  refine ⟨(hfollows "name_template" (by decide)).withDefault ?_ htemplate,
    (hfollows "format" (by decide)).withDefault ?_ hformat,
    (hfollows "format_overrides" (by decide)).withDefault ?_ hoverrides,
    (hfollows "replacements" (by decide)).withDefault ?_ hreplacements,
    (hfollows "wrap_in_directory" (by decide)).withDefault ?_ hwrap⟩
  all_goals simp [FormatOverride.overlooks.list]

theorem overlooks_checksum :
    Overlooks (readChecksum? valueReader) (extensionsOf checksumFields []) := by
  refine .record (fun _ _ => readChecksum?_eq_some_iff) ?_
  intro get get' t hfollows ht
  exact (hfollows "name_template" (by decide)).withDefault nofun ht

/-- The records of a description. Replacements are not among them: all of their members count. -/
def records : List RecordAt :=
  [⟨[], fields⟩,
    ⟨[.member "release"], releaseFields⟩,
    ⟨[.member "release", .member "github"], repoFields⟩,
    ⟨[.member "builds", .item], Build.fields⟩,
    ⟨[.member "builds", .item, .member "ignore", .item], IgnoreRule.fields⟩,
    ⟨[.member "archive"], archiveFields⟩,
    ⟨[.member "archive", .member "format_overrides", .item], FormatOverride.fields⟩,
    ⟨[.member "checksum"], checksumFields⟩]

theorem overlooks : Overlooks ofJson? (records.map RecordAt.change) := by
  -- The records of the description, put together from those of its parts.
  have h : Overlooks ofJson? (extensionsOf fields [
      ("release", extensionsOf releaseFields [("github", extensionsOf repoFields [])]),
      ("builds", (extensionsOf Build.fields
        [("ignore", (extensionsOf IgnoreRule.fields []).map (Change.below .item))]).map
          (Change.below .item)),
      ("archive", extensionsOf archiveFields
        [("format_overrides", (extensionsOf FormatOverride.fields []).map (Change.below .item))]),
      ("checksum", extensionsOf checksumFields [])]) := by
    refine .record (fun _ _ => read?_eq_some_iff) ?_
    rintro get get' p hfollows ⟨hname, hrepo, hbuilds, harchive, hchecksum⟩
    refine ⟨(hfollows "project_name" (by decide)).withDefault ?_ hname,
      (hfollows "release" (by decide)).withDefault ?_ hrepo,
      (hfollows "builds" (by decide)).withDefault ?_ hbuilds,
      (hfollows "archive" (by decide)).withDefault ?_ harchive,
      (hfollows "checksum" (by decide)).withDefault ?_ hchecksum⟩
    all_goals simp [overlooks_release, Build.overlooks.list, overlooks_archive, overlooks_checksum]
  exact h

/-- A description in which one of the records got further members that are not its fields, anywhere
among its members, which may be in another order. -/
def IsWidened (v v' : Json) : Prop := ∃ r ∈ records, r.IsWidened v v'

variable {v v' : Json} {p : Project}

theorem ofJson?_of_isWidened (h : ofJson? v = some p) (hwidened : IsWidened v v') :
    ofJson? v' = some p := by
  obtain ⟨r, hr, hwidened⟩ := hwidened
  exact overlooks r.change (List.mem_map_of_mem hr) v v' p hwidened h

/-- However much a description says besides, it describes the same project, and so for any repository
from outside the same release or the same fault. -/
theorem ofJson?_of_widened (h : ofJson? v = some p)
    (hwidened : Relation.ReflTransGen IsWidened v v') :
    ofJson? v' = some p ∧ ∀ given, (ofJson? v').map (Release.ofProject · given) =
      some (Release.ofProject p given) := by
  have hread : ofJson? v' = some p := by
    induction hwidened with
    | refl => exact h
    | tail _ hstep ih => exact ofJson?_of_isWidened ih hstep
  exact ⟨hread, fun given => congrArg (Option.map (Release.ofProject · given)) hread⟩

def briefDescription : Json :=
  object [("project_name", text "foo"),
    ("builds", array [object [("goos", array [text "linux"])]])]

def widenedDescription : Json :=
  object [("dist", text "out"),
    ("builds", array [object [("main", text "./cmd"), ("goos", array [text "linux"])]]),
    ("project_name", text "foo")]

theorem ofJson?_of_widened_brief :
    Relation.ReflTransGen IsWidened briefDescription widenedDescription ∧
      ofJson? widenedDescription =
        some { (default : Project) with name := some "foo", builds := [⟨"", ["linux"], [], [], []⟩] } := by
  have hbuild : IsWidened briefDescription (object [("project_name", text "foo"),
      ("builds", array [object [("main", text "./cmd"), ("goos", array [text "linux"])]])]) :=
    ⟨⟨[.member "builds", .item], Build.fields⟩, by decide, .member [("project_name", text "foo")] []
      (.item [] [] (.here ⟨_, [("main", text "./cmd")], _, rfl, rfl, .swap _ _ _, by decide⟩))⟩
  have hproject : IsWidened (object [("project_name", text "foo"),
      ("builds", array [object [("main", text "./cmd"), ("goos", array [text "linux"])]])])
      widenedDescription :=
    ⟨⟨[], fields⟩, by decide,
      .here ⟨_, [("dist", text "out")], _, rfl, rfl, List.reverse_perm [_, _, _], by simp [fields]⟩⟩
  have hwidened := (Relation.ReflTransGen.single hbuild).tail hproject
  have hread : ofJson? briefDescription = some
      { (default : Project) with name := some "foo", builds := [⟨"", ["linux"], [], [], []⟩] } := by
    decide
  exact ⟨hwidened, (ofJson?_of_widened hread hwidened).1⟩

end Project

end ReleaseInstaller
