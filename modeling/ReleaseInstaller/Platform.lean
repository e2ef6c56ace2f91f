import ReleaseInstaller.Project.Basic

/-! The platforms that a build is made for, and those that it leaves out. -/
namespace ReleaseInstaller

/-- An operating system and an architecture, together with its revision if it has one. -/
structure Platform where
  os : String
  arch : String
  deriving DecidableEq, Repr

namespace Platform

def display (p : Platform) : String := p.os ++ "/" ++ p.arch

/-- One revision of an architecture. -/
def ofRevision (os arch revision : String) : Platform := ⟨os, arch ++ "v" ++ revision⟩

/-- The platforms of an architecture: one for each revision if it is 32-bit ARM and revisions are
given. -/
def expand (revisions : List String) (os arch : String) : List Platform :=
  if arch = "arm" ∧ revisions ≠ [] then revisions.map (ofRevision os arch) else [⟨os, arch⟩]

end Platform

/-- The platform that a rule leaves out. -/
def IgnoreRule.platform (r : IgnoreRule) : Platform :=
  match r.revision with
  | some revision => .ofRevision r.os r.arch revision
  | none => ⟨r.os, r.arch⟩

structure PlatformMatrix where
  supported : List Platform
  excluded : List Platform
  deriving DecidableEq, Repr

namespace PlatformMatrix

/-- Every system with every architecture, in the order of the build and without repetitions. -/
def ofBuild (b : Build) : PlatformMatrix where
  supported :=
    (b.systems.flatMap fun os => b.archs.flatMap fun arch =>
      Platform.expand b.revisions os arch).eraseDups
  excluded := (b.ignored.map IgnoreRule.platform).eraseDups

/-- A platform that is both supported and excluded is excluded. -/
def isSupported (m : PlatformMatrix) (platform : String) : Bool :=
  m.supported.any (·.display == platform) && !m.excluded.any (·.display == platform)

end PlatformMatrix

end ReleaseInstaller
