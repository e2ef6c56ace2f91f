import ReleaseInstaller.Release.Validity

/-! The release that a project describes, with defaults where the description is silent. -/
namespace ReleaseInstaller.Release

def defaultNameTemplate : String :=
  "\x7b\x7b .Binary \x7d\x7d_\x7b\x7b .Version \x7d\x7d_\x7b\x7b .Os \x7d\x7d_\x7b\x7b .Arch \x7d\x7d" ++
    "\x7b\x7b if .Arm \x7d\x7dv\x7b\x7b .Arm \x7d\x7d\x7b\x7b end \x7d\x7d"

def defaultChecksumTemplate : String :=
  "\x7b\x7b .ProjectName \x7d\x7d_\x7b\x7b .Version \x7d\x7d_checksums.txt"

def defaultFormat : String := "tar.gz"

def defaultSystems : List String := ["linux", "darwin"]

def defaultArchs : List String := ["amd64", "386"]

def defaultRevisions : List String := ["6"]

def textOr (fallback value : String) : String := if value.isEmpty then fallback else value

def listOr (fallback values : List String) : List String :=
  if values.isEmpty then fallback else values

/-- An empty revision is no revision. -/
def ofIgnoreRule (r : IgnoreRule) : IgnoreRule :=
  { r with revision := r.revision.filter (!·.isEmpty) }

def ofBuild (projectName : String) (b : Build) : Build where
  binary := textOr projectName b.binary
  systems := listOr defaultSystems b.systems
  archs := listOr defaultArchs b.archs
  revisions := listOr defaultRevisions b.revisions
  ignored := b.ignored.map ofIgnoreRule

/-- Of two overrides for the same system the later one counts. -/
def ofArchive (a : Project.Archive) : Archive where
  nameTemplate := a.nameTemplate.getD defaultNameTemplate
  format := a.format.getD defaultFormat
  formatOverrides := .ofList (a.formatOverrides.map fun o => (o.os, o.format))
  replacements := a.replacements
  wrapInDirectory := a.wrapInDirectory

/-- The repository that the description names, or else the one from outside. -/
def repoOf? (described : Repo) (given : Option Repo) : Option Repo := do
  let repo ← if described.owner.isEmpty then given else some described
  guard (!repo.owner.isEmpty && !repo.name.isEmpty)
  return repo

/-- A build about which nothing is said. -/
def plainBuild : Build := ⟨"", [], [], [], []⟩

def withDefaults (p : Project) (repo : Repo) : Release :=
  let projectName := textOr repo.name (p.name.getD "")
  { projectName
    repo
    builds := (if p.builds.isEmpty then [plainBuild] else p.builds).map (ofBuild projectName)
    archive := ofArchive p.archive
    checksumTemplate := p.checksumTemplate.getD defaultChecksumTemplate }

/-- The release of a project, whose repository may be given from outside. -/
def ofProject (p : Project) (given : Option Repo) : Except Fault Release := do
  let some repo := repoOf? p.repo given | throw .noRepo
  let r := withDefaults p repo
  r.validate
  return r

end ReleaseInstaller.Release
