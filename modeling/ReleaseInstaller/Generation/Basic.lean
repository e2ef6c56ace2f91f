import ReleaseInstaller.Diff.Unified
import ReleaseInstaller.Installer.Basic
import ReleaseInstaller.Remote
import ReleaseInstaller.Script
import ReleaseInstaller.Store

/-! What a run is made of: the ways in which it can fail, its steps, and what it asks of the file that the
installer is written to. -/
namespace ReleaseInstaller.Generation
open Script Text

inductive Failure where
  | noSource
  /-- A text that names no repository. -/
  | repo (text : String)
  /-- A file that is not there or is no text. -/
  | unreadable (path : String)
  /-- A file that holds no release description. -/
  | malformed (path : String)
  | remote (fault : Remote.Fault)
  | release (fault : Release.Fault)
  | installer (fault : Installer.Fault)
  /-- A file that is not what would be generated, with the differences. -/
  | outOfDate (path difference : String)
  | noFileName (path : String)
  | unwritable (path : String)
  deriving Repr

namespace Failure

def message : Failure → String
  | noSource => "repo or file not specified"
  | repo text => "couldn't parse " ++ quoted text ++ " as a GitHub owner/name"
  | unreadable path => "couldn't read " ++ path
  | malformed path => "couldn't make out a release description in " ++ path
  | remote (.notFound baseUrl tried) =>
    "could not fetch a goreleaser configuration file from " ++ baseUrl ++ " (tried " ++
      ", ".intercalate tried ++ ")"
  | remote .requestFailed => "couldn't reach the server of the repository"
  | remote .malformed => "couldn't make out a release description in the repository"
  | release fault => fault.message
  | installer (.template refusal) => refusal.message
  | installer .noBuild => "there is no build"
  | outOfDate path difference =>
    path ++ " has out of date contents and needs to be regenerated:\n" ++ difference
  | noFileName path => quoted path ++ " names no file"
  | unwritable path => "couldn't write " ++ path

/-- What to do about it. -/
def advice? : Failure → Option String
  | noSource => some "pass --repo owner/name, or the path to a goreleaser config"
  | repo _ => some "expected something like 'owner/name' or 'https://github.com/owner/name'"
  | release fault => fault.advice?
  | installer (.template refusal) => refusal.fault.advice?
  | outOfDate _ _ => some "run 'binfetch' again without --check to update it"
  | _ => none

end Failure

/-! A step looks at the directory tree or changes it, and it can fail. What it has changed until it
fails stays changed. -/

variable {α β : Type}

/-- What a step comes to, and the directory tree after it. -/
abbrev Action (α : Type) : Type := ExceptT Failure (StateM Store) α

/-- A step that only looks at the directory tree. -/
def look (f : Store → Except Failure α) : Action α := fun s => (f s, s)

theorem look_bind (f : Store → Except Failure α) (g : α → Action β) (s : Store) :
    (look f >>= g) s = match f s with
      | .ok a => g a s
      | .error failure => (.error failure, s) := by
  change ExceptT.bindCont g (f s) s = _
  cases f s with
  | ok a => rfl
  | error failure => rfl

/-- A step that only passes on what the step before gives leaves the directory tree to it. -/
theorem bind_pure_comp (x : Action α) (f : α → β) (s : Store) :
    (x >>= fun a => pure (f a)) s = ((x s).1.map f, (x s).2) := by
  change ExceptT.bindCont (fun a => pure (f a) : α → Action β) (x s).1 (x s).2 = _
  cases (x s).1 with
  | ok a => rfl
  | error failure => rfl

/-! The file that the installer is written to: whether it is what would be generated, and whether there
is a reason to write it. -/

/-- The text of a file that is there. -/
def read (s : Store) (path : String) : Except Failure String :=
  match s.text? path with
  | some text => .ok text
  | none => .error (.unreadable path)

/-- The differences between two scripts, apart from dates and the kind of line ends. -/
def difference? (path existing generated : String) : Option String :=
  Diff.unified? path (comparable existing.toList) (comparable generated.toList)

/-- Refuses a file that differs from the generated script. A file that is not there counts as empty. -/
def check (s : Store) (path generated : String) : Except Failure Unit := do
  let existing ← if s.contains path then read s path else .ok ""
  match difference? path existing generated with
  | some difference => .error (.outOfDate path difference)
  | none => .ok ()

/-- A file is worth writing if it is not there or does something else. -/
def shouldWrite (s : Store) (path generated : String) : Except Failure Bool := do
  if s.contains path then
    let existing ← read s path
    return substance existing.toList != substance generated.toList
  else return true

/-- Writes a file whatever it holds. -/
def write (path generated : String) : Action Unit := fun s =>
  match s.write path (.text generated) with
  | .ok s' => (.ok (), s')
  | .error .noFileName => (.error (.noFileName path), s)
  | .error (.refused left) => (.error (.unwritable path), left)

end ReleaseInstaller.Generation
