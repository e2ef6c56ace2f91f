import ReleaseInstaller.Release.Basic
import ReleaseInstaller.Text.Basic

/-! Which releases can be turned into a shell script: all that is pasted into it means nothing to the
shell, and every format can be unpacked. -/
namespace ReleaseInstaller.Release
open Shell

/-- The archive formats that the installer can unpack. -/
def supportedFormats : List String := ["tar.gz", "tgz", "tar", "zip"]

def checkWord (setting : Setting) (value : String) : Except Fault Unit :=
  if isWord value then .ok () else .error (.unsafeValue setting value)

def checkWords (setting : Setting) (values : List String) : Except Fault Unit :=
  values.forM (checkWord setting)

def checkFormat (format : String) : Except Fault Unit :=
  if format ∈ supportedFormats then .ok () else .error (.unsupportedFormat format)

def checkIgnoreRule (r : IgnoreRule) : Except Fault Unit := do
  checkWord .ignoredSystem r.os
  checkWord .ignoredArch r.arch
  checkWords .ignoredRevision r.revision.toList

def checkBuild (b : Build) : Except Fault Unit := do
  checkWord .binary b.binary
  checkWords .system b.systems
  checkWords .arch b.archs
  checkWords .revision b.revisions
  b.ignored.forM checkIgnoreRule

def checkArchive (a : Archive) : Except Fault Unit := do
  (a.format :: a.formatOverrides.values).forM checkFormat
  checkWords .overrideSystem a.formatOverrides.keys
  checkWords .replacement a.replacements.keys
  checkWords .replacement a.replacements.values

/-- The first fault of a release, if it has one. -/
def validate (r : Release) : Except Fault Unit := do
  if r.builds.isEmpty then throw (.unsafeValue .builds "")
  checkWord .owner r.repo.owner
  checkWord .repoName r.repo.name
  checkWord .projectName r.projectName
  r.builds.forM checkBuild
  checkArchive r.archive

end ReleaseInstaller.Release
