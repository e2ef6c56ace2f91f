import ReleaseInstaller.Project.Basic
import ReleaseInstaller.Text.Quoted

/-! Releases: descriptions whose defaults are filled in. -/
namespace ReleaseInstaller
open Text

namespace Release

/-- How the archives are named and packed. -/
structure Archive where
  nameTemplate : String
  format : String
  /-- The formats on single operating systems. -/
  formatOverrides : Dictionary
  /-- What names of systems and architectures are called in archive names. -/
  replacements : Dictionary
  wrapInDirectory : Bool
  deriving DecidableEq, Repr

end Release

structure Release where
  projectName : String
  repo : Repo
  builds : List Build
  archive : Release.Archive
  checksumTemplate : String
  deriving DecidableEq, Repr

namespace Release

/-- The settings whose values end up in the installer. -/
inductive Setting where
  | builds | owner | repoName | projectName
  | binary | system | arch | revision
  | ignoredSystem | ignoredArch | ignoredRevision
  | overrideSystem | replacement
  deriving DecidableEq, Repr

/-- Where a description gives the setting. -/
def Setting.path : Setting → String
  | builds => "builds"
  | owner => "release.github.owner"
  | repoName => "release.github.name"
  | projectName => "project_name"
  | binary => "builds.binary"
  | system => "builds.goos"
  | arch => "builds.goarch"
  | revision => "builds.goarm"
  | ignoredSystem => "builds.ignore.goos"
  | ignoredArch => "builds.ignore.goarch"
  | ignoredRevision => "builds.ignore.goarm"
  | overrideSystem => "archive.format_overrides.goos"
  | replacement => "archive.replacements"

/-- What can be wrong with a release. -/
inductive Fault where
  | noRepo
  | unsupportedFormat (format : String)
  | unsafeValue (setting : Setting) (value : String)
  deriving DecidableEq, Repr

namespace Fault

def message : Fault → String
  | noRepo => "owner/name repo not specified"
  | unsupportedFormat format => "archive format " ++ quoted format ++ " isn't supported"
  | unsafeValue setting value =>
    setting.path ++ " value " ++ quoted value ++ " isn't safe to embed in a shell script"

def advice? : Fault → Option String
  | noRepo => some "set release.github.owner/name in the config, or pass --repo owner/name"
  | unsupportedFormat _ => some "supported formats are tar.gz, tgz, tar, and zip"
  | unsafeValue _ _ => none

end Fault

end Release

end ReleaseInstaller
