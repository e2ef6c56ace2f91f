import ReleaseInstaller.NameTemplate.Basic
import ReleaseInstaller.Platform
import ReleaseInstaller.Release.Basic

/-! What an installer is made of, where a release has it, and the lines that it is written in. -/
namespace ReleaseInstaller

/-- An arm of a `case` statement: what it matches, and what it assigns. -/
structure Installer.Arm where
  pattern : String
  value : String
  deriving DecidableEq, Repr

/-- The values that go into an installer. -/
structure Installer where
  /-- The version of this program. -/
  version : String
  generatedAt : Option String
  projectName : String
  owner : String
  repo : String
  repoUrl : String
  /-- The binary after which archives are named. -/
  binary : String
  /-- The binaries to install. -/
  binaries : List String
  format : String
  wrapInDirectory : Bool
  /-- The line that assigns the name of the archive. -/
  archiveName : String
  /-- The line that assigns the name of the list of checksums. -/
  checksumName : String
  supported : List String
  excluded : List String
  /-- The formats on single operating systems. -/
  formatOverrides : List Installer.Arm
  /-- The names in archive names for systems and architectures. -/
  replacements : List Installer.Arm
  deriving DecidableEq, Repr

namespace Installer

/-- The version of this program. -/
def currentVersion : String := "0.4.0"

/-- One arm for each entry, in the order of the keys. -/
def arms (d : Dictionary) : List Arm := d.entries.map fun e => ⟨e.1, e.2⟩

inductive Fault where
  | template (refusal : NameTemplate.Refusal)
  /-- There is no first build, after which archives could be named. -/
  | noBuild
  deriving Repr

/-- Fills in the values of a release whose first build is `primary`. -/
def ofParts (r : Release) (primary : Build) (archiveName checksumName : NameTemplate.Assignment)
    (generatedAt : Option String) : Installer :=
  let matrix := PlatformMatrix.ofBuild primary
  { version := currentVersion
    generatedAt
    projectName := r.projectName
    owner := r.repo.owner
    repo := r.repo.name
    repoUrl := r.repo.webUrl
    binary := primary.binary
    binaries := r.builds.map Build.binary
    format := r.archive.format
    wrapInDirectory := r.archive.wrapInDirectory
    archiveName := archiveName.line
    checksumName := checksumName.line
    supported := matrix.supported.map Platform.display
    excluded := matrix.excluded.map Platform.display
    formatOverrides := arms r.archive.formatOverrides
    replacements := arms r.archive.replacements }

def assign (target template : String) : Except Fault NameTemplate.Assignment :=
  (NameTemplate.assign target template).mapError .template

/-- The installer of a release. -/
def ofRelease (r : Release) (generatedAt : Option String) : Except Fault Installer := do
  let archiveName ← assign NameTemplate.archiveTarget r.archive.nameTemplate
  let checksumName ← assign NameTemplate.checksumTarget r.checksumTemplate
  let primary :: _ := r.builds | throw .noBuild
  return ofParts r primary archiveName checksumName generatedAt

/-! Lines in parts: text that is always the same, and values of the release. -/

inductive Piece where
  | fixed (text : String)
  | value (text : String)
  deriving DecidableEq, Repr

def Piece.text : Piece → String
  | fixed s => s
  | value s => s

abbrev Line := List Piece

def Line.text (l : Line) : List Char := l.flatMap fun p => p.text.toList

/-- The text of lines, each with its end. -/
def textOf (lines : List Line) : List Char := lines.flatMap fun l => l.text ++ ['\n']

/-- Lines without values. -/
def fixed (lines : List String) : List Line := lines.map fun s => [.fixed s]

/-- A `case` statement within a function. -/
def caseOf (subject : String) (arms : List Line) : List Line :=
  [.fixed ("  case " ++ subject ++ " in")] :: arms ++ [[.fixed "  esac"]]

/-- A `case` statement that is left out if it has no arm. -/
def optionalCaseOf (subject : String) (arms : List Line) : List Line :=
  if arms.isEmpty then [] else caseOf subject arms

end Installer

end ReleaseInstaller
