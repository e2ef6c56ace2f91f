import ReleaseInstaller.Bundle

/-! The text that the template of the program gives for a release, and what can keep it from doing so. -/
namespace ReleaseInstaller.Installer

def Arm.draft (a : Arm) : ArmDraft := ⟨some a.pattern, some a.value⟩

/-- The draft that has all values of an installer. -/
def draft (i : Installer) : Draft where
  version := some i.version
  generatedAt := some i.generatedAt
  projectName := some i.projectName
  owner := some i.owner
  repo := some i.repo
  repoUrl := some i.repoUrl
  binary := some i.binary
  binaries := some i.binaries
  format := some i.format
  wrapInDirectory := some i.wrapInDirectory
  archiveName := some i.archiveName
  checksumName := some i.checksumName
  supported := some i.supported
  excluded := some i.excluded
  formatOverrides := some (i.formatOverrides.map Arm.draft)
  replacements := some (i.replacements.map Arm.draft)

def templateKey : String := "installer/installer.sh"

/-- What can keep a release from becoming a text. -/
inductive RenderingFault where
  | installer (fault : Fault)
  | template (fault : Template.Fault)
  | noTemplate (key : String)
  deriving Repr

/-- The text that the template gives for an installer. -/
def render (i : Installer) : Except RenderingFault String :=
  match Bundle.render? templateKey i.draft with
  | some text => text.mapError .template
  | none => .error (.noTemplate templateKey)

def rendered (r : Release) (date : Option String) : Except RenderingFault String := do
  let i ← (ofRelease r date).mapError .installer
  render i

end ReleaseInstaller.Installer
