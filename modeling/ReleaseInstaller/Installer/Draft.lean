import ReleaseInstaller.Installer.Template

/-! Installers some of whose values may be missing, as values for the template. -/
namespace ReleaseInstaller.Installer
open Template

structure ArmDraft where
  pattern : Option String
  value : Option String
  deriving DecidableEq, Repr

structure Draft where
  version : Option String
  /-- The date may be missing, or be known to be none. -/
  generatedAt : Option (Option String)
  projectName : Option String
  owner : Option String
  repo : Option String
  repoUrl : Option String
  binary : Option String
  binaries : Option (List String)
  format : Option String
  wrapInDirectory : Option Bool
  archiveName : Option String
  checksumName : Option String
  supported : Option (List String)
  excluded : Option (List String)
  formatOverrides : Option (List ArmDraft)
  replacements : Option (List ArmDraft)
  deriving DecidableEq, Repr

/-- A member that is there if its value is. -/
def memberOf {α : Type} (name : String) (valueOf : α → Value) (o : Option α) :
    List (String × Value) :=
  (o.map fun x => (name, valueOf x)).toList

def dateValue : Option String → Value
  | some date => .text date
  | none => .nothing

def textsValue (texts : List String) : Value := .list (texts.map .text)

def ArmDraft.toValue (a : ArmDraft) : Value :=
  .record (memberOf "pattern" .text a.pattern ++ memberOf "value" .text a.value)

def armsValue (arms : List ArmDraft) : Value := .list (arms.map ArmDraft.toValue)

namespace Draft

/-- The values that are there, under their names. -/
def values (d : Draft) : Scope :=
  memberOf "binfetch_version" .text d.version ++
  memberOf "generated_at" dateValue d.generatedAt ++
  memberOf "project_name" .text d.projectName ++
  memberOf "owner" .text d.owner ++
  memberOf "repo" .text d.repo ++
  memberOf "repo_url" .text d.repoUrl ++
  memberOf "binary" .text d.binary ++
  memberOf "binaries" textsValue d.binaries ++
  memberOf "format" .text d.format ++
  memberOf "wrap_in_directory" .truth d.wrapInDirectory ++
  memberOf "archive_name" .text d.archiveName ++
  memberOf "checksum_name" .text d.checksumName ++
  [("matrix", .record (memberOf "supported" textsValue d.supported ++
      memberOf "excluded" textsValue d.excluded)),
    ("adjustments", .record (memberOf "format_overrides" armsValue d.formatOverrides ++
      memberOf "replacements" armsValue d.replacements))]

def script (d : Draft) : Except Template.Fault String := fill d.values

end Draft

end ReleaseInstaller.Installer
