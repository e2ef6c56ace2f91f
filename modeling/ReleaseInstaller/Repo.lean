import ReleaseInstaller.Url.Basic

/-! Repositories on GitHub, and the ways in which people write them. -/
namespace ReleaseInstaller
open Text

structure Repo where
  owner : String
  name : String
  deriving DecidableEq, Repr

namespace Repo

/-- The short spelling, owner and name with a slash between. -/
def display (r : Repo) : String := r.owner ++ "/" ++ r.name

/-- The page of the repository. -/
def webUrl (r : Repo) : String := "https://github.com/" ++ r.display

/-- Where the files of the default branch can be fetched. -/
def rawContentUrl (r : Repo) : String :=
  "https://raw.githubusercontent.com/" ++ r.display ++ "/master"

/-- The path of a web address on `github.com`. -/
def pathOfUrl? (s : List Char) : Option (List Char) := do
  let url ← Url.parse? s
  guard (url.domain? = some "github.com".toList)
  return url.path

/-- The part of the spelling that holds owner and name, without what says that they are on GitHub. -/
def pathOf? (s : List Char) : Option (List Char) :=
  if (afterLead? "https://" s).isSome || (afterLead? "http://" s).isSome then pathOfUrl? s
  else some (((afterLead? "git@github.com:" s) <|> (afterLead? "github.com/" s)).getD s)

/-- Splits `owner/name`, with any slashes around it and one `.git` after it. -/
def ofPath? (path : List Char) : Option Repo := do
  let path := dropEndWhile (· == '/') (path.dropWhile (· == '/'))
  let path := (beforeTail? ".git" path).getD path
  let (owner, name) ← splitOnce? '/' path
  guard (!owner.isEmpty && !name.isEmpty && !name.contains '/')
  return ⟨String.ofList owner, String.ofList name⟩

/-- Reads `owner/name` or a web address, an SSH address or a host name in front of it. -/
def parse? (text : String) : Option Repo := do ofPath? (← pathOf? (trim text.toList))

end Repo

end ReleaseInstaller
