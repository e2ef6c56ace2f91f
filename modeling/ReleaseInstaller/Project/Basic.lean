import ReleaseInstaller.Dictionary
import ReleaseInstaller.Repo

/-! Projects as their release descriptions give them, before defaults are filled in. -/
namespace ReleaseInstaller

/-- A platform that is not built: one revision of it, or all of it if no revision is given. -/
structure IgnoreRule where
  os : String
  arch : String
  revision : Option String
  deriving DecidableEq, Repr

/-- A binary and the platforms it is built for. -/
structure Build where
  binary : String
  systems : List String
  archs : List String
  /-- The ARM revisions to build for where the architecture is `arm`. -/
  revisions : List String
  ignored : List IgnoreRule
  deriving DecidableEq, Repr

/-- The archive format on one operating system. -/
structure FormatOverride where
  os : String
  format : String
  deriving DecidableEq, Repr

namespace Project

/-- How the archives are named and packed. -/
structure Archive where
  nameTemplate : Option String
  format : Option String
  formatOverrides : List FormatOverride
  /-- What names of systems and architectures are called in archive names. -/
  replacements : Dictionary
  wrapInDirectory : Bool
  deriving DecidableEq, Repr

instance : Inhabited Archive := ⟨none, none, [], ∅, false⟩

end Project

/-- A release description. -/
structure Project where
  name : Option String
  /-- Where releases are published; its parts are empty where the description is silent. -/
  repo : Repo
  builds : List Build
  archive : Project.Archive
  checksumTemplate : Option String
  deriving DecidableEq, Repr

instance : Inhabited Project := ⟨none, ⟨"", ""⟩, [], default, none⟩

end ReleaseInstaller
