import ReleaseInstaller.Json.Reader
import ReleaseInstaller.Project.Reader
import ReleaseInstaller.Text.Basic
import ReleaseInstaller.Yaml.Value

/-! Release descriptions as documents of JSON and of YAML. A JSON record may also be an array of its fields
in their order, of which the last may be missing. -/
namespace ReleaseInstaller
open Json Text

/-- An optional value: `null` means that there is none. -/
def Json.optional? {β : Type} (read : Json → Option β) : Json → Option (Option β)
  | null => some none
  | v => (read v).map some

/-- A text, or an integer of 64 bits with sign, which stands for its decimal digits. -/
def Json.textOrInteger? : Json → Option String
  | text s => some s
  | integer n => smallDecimal? n
  | _ => none

/-- JSON values tell their types. -/
def Json.valueReader : ValueReader Json where
  record? := record?
  items? := items?
  entries? := members?
  text? := text?
  optionalText? := optional? text?
  textOrInteger? := textOrInteger?
  optionalTextOrInteger? := optional? textOrInteger?
  truth? := bool?

/-- The project that a document describes. -/
def Project.ofJson? (v : Json) : Option Project := read? valueReader v

def Project.ofJsonText? (text : String) : Option Project := (parse? text).bind ofJson?

/-! Writing: members that are empty and may be missing are left out. -/

/-- A member with an optional text. -/
def Json.optionalMember (key : String) : Option String → List (String × Json)
  | none => []
  | some s => [(key, text s)]

/-- A member with a list, unless it is empty. -/
def Json.listMember (key : String) (items : List Json) : List (String × Json) :=
  if items.isEmpty then [] else [(key, array items)]

def IgnoreRule.toJson (r : IgnoreRule) : Json :=
  object ([("goos", text r.os), ("goarch", text r.arch)] ++ optionalMember "goarm" r.revision)

def Build.toJson (b : Build) : Json :=
  object ([("binary", text b.binary)] ++ listMember "goos" (b.systems.map text) ++
    listMember "goarch" (b.archs.map text) ++ listMember "goarm" (b.revisions.map text) ++
    listMember "ignore" (b.ignored.map IgnoreRule.toJson))

def FormatOverride.toJson (o : FormatOverride) : Json :=
  object [("goos", text o.os), ("format", text o.format)]

namespace Project

def repoToJson (r : Repo) : Json := object [("owner", text r.owner), ("name", text r.name)]

def dictionaryToJson (d : Dictionary) : Json := object (d.entries.map fun e => (e.1, text e.2))

def archiveToJson (a : Archive) : Json :=
  object (optionalMember "name_template" a.nameTemplate ++ optionalMember "format" a.format ++
    listMember "format_overrides" (a.formatOverrides.map FormatOverride.toJson) ++
    (if a.replacements.isEmpty then []
      else [("replacements", dictionaryToJson a.replacements)]) ++
    [("wrap_in_directory", bool a.wrapInDirectory)])

def checksumToJson (template : Option String) : Json :=
  object (optionalMember "name_template" template)

/-- The document that describes a project. -/
def toJson (p : Project) : Json :=
  object (optionalMember "project_name" p.name ++
    [("release", object [("github", repoToJson p.repo)])] ++
    listMember "builds" (p.builds.map Build.toJson) ++
    [("archive", archiveToJson p.archive), ("checksum", checksumToJson p.checksumTemplate)])

end Project

/-- No two entries of a record have the same key, also if the key is unknown. -/
def Yaml.Document.valueReader (d : Yaml.Document) : ValueReader Yaml.Node where
  record? _ v := (d.entries? v).map fun entries field => entries.lookup field
  items? := d.items?
  entries? := d.entries?
  text? := d.text?
  optionalText? := d.optionalText?
  textOrInteger? := d.textOrInteger?
  optionalTextOrInteger? := d.optionalTextOrInteger?
  truth? := d.truth?

/-- The project that a text describes. -/
def Project.ofYaml? (text : String) : Option Project := do
  let d ← Yaml.Document.ofText? text
  read? d.valueReader d.root

end ReleaseInstaller
