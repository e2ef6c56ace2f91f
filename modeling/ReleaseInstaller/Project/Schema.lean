import ReleaseInstaller.Json.Basic
import ReleaseInstaller.Json.Schema
import ReleaseInstaller.Project.Document

/-! The schema of release descriptions, as editors use it. -/
namespace ReleaseInstaller.Project
open Json

/-- A member that may be missing. -/
def optionalMemberInfo (name description : String) (fallback : Option Json) : MemberInfo :=
  ⟨name, description, false, fallback⟩

def ignoreSchema : Schema :=
  .named "IgnoredBuild" "A platform combination that is not built" <| .record [
    (optionalMemberInfo "goarch" "Architecture" (some (text "")), .text),
    (optionalMemberInfo "goarm" "ARM revision, only meaningful with `goarch: arm`" none,
      .optionalText),
    (optionalMemberInfo "goos" "Operating system" (some (text "")), .text)]

def buildSchema : Schema :=
  .named "Build" "One build of one binary across several platforms" <| .record [
    (optionalMemberInfo "binary"
      "The name of the produced binary (defaults to the project name)" (some (text "")), .text),
    (optionalMemberInfo "goarch" "Architectures to build for" none, .list .text),
    (optionalMemberInfo "goarm"
      ("ARM revisions to build for when `goarch` contains `arm`\n\n" ++
        "YAML users usually write these as bare numbers (`goarm: [6, 7]`), " ++
        "so both numbers and strings are accepted.") none, .list .text),
    (optionalMemberInfo "goos" "Operating systems to build for" none, .list .text),
    (optionalMemberInfo "ignore" "Platform combinations to skip" none, .list ignoreSchema)]

def formatOverrideSchema : Schema :=
  .named "FormatOverride" "An archive format used for one OS" <| .record [
    (⟨"format", "The format to use for it", true, none⟩, .text),
    (⟨"goos", "The OS this applies to", true, none⟩, .text)]

def archiveSchema : Schema :=
  .named "Archive" "Release archive settings" <| .record [
    (optionalMemberInfo "format" "The archive format (`tar.gz`, `tar`, `zip`)" none,
      .optionalText),
    (optionalMemberInfo "format_overrides" "Per-OS archive formats" none,
      .list formatOverrideSchema),
    (optionalMemberInfo "name_template"
      "A Go-template style name for the archive (without extension)" none, .optionalText),
    (optionalMemberInfo "replacements"
      "Token replacements applied to the OS and arch names in archive names" none, .map .text),
    (optionalMemberInfo "wrap_in_directory"
      "Whether the archive contents are nested under a directory named like the archive"
      (some (bool false)), .truth)]

def checksumSchema : Schema :=
  .named "Checksum" "Checksum file settings" <| .record [
    (optionalMemberInfo "name_template" "A Go-template style name for the checksum file" none,
      .optionalText)]

def repoSchema : Schema :=
  .named "GithubRepo" "A GitHub repository like `owner/name`" <| .record [
    (optionalMemberInfo "name" "The repository name" (some (text "")), .text),
    (optionalMemberInfo "owner" "The owner (user or org)" (some (text "")), .text)]

def emptyRepo : Json := object [("name", text ""), ("owner", text "")]

def releaseSchema : Schema :=
  .named "Release" "Release hosting info" <| .record [
    (optionalMemberInfo "github" "The GitHub repository releases are uploaded to"
      (some emptyRepo), repoSchema)]

/-- The form of a release description. -/
def schema : Schema :=
  .record [
    (optionalMemberInfo "archive" "How the release archives are named and packed"
      (some (object [("wrap_in_directory", bool false)])), archiveSchema),
    (optionalMemberInfo "builds" "The builds that produce binaries for the archives" none,
      .list buildSchema),
    (optionalMemberInfo "checksum" "How the checksum file is named" (some (object [])),
      checksumSchema),
    (optionalMemberInfo "project_name"
      "The name of the project (defaults to the repository name)" none, .optionalText),
    (optionalMemberInfo "release" "Where releases are published"
      (some (object [("github", emptyRepo)])), releaseSchema)]

/-- The schema as it is published. -/
def schemaDocument : Json := schema.document "Project" "A release description"

/-- The text of the schema. -/
def schemaText : String := schemaDocument.pretty

end ReleaseInstaller.Project
