import ReleaseInstaller.Text.Basic

/-! A directory tree, as far as it matters here: which files and directories there are, and what the
files hold. -/
namespace ReleaseInstaller
open Text

/-- The names that lead to an entry from the working directory. Leading dots lead out of it, and a
leading slash is the name of the root. -/
abbrev Path := List String

inductive Store.Entry where
  | directory
  | text (content : String)
  /-- A file whose content is no text. -/
  | binary (content : List UInt8)
  deriving DecidableEq, Repr

structure Store where
  entries : List (Path × Store.Entry)
  deriving DecidableEq, Repr

namespace Store

def empty : Store := ⟨[]⟩

/-- The working directory, the root, or a directory above the working directory. They are always
there. -/
def isGiven (p : Path) : Bool := p = ["/"] || p.all (· = "..")

def find? (s : Store) (p : Path) : Option Entry :=
  if isGiven p then some .directory else s.entries.lookup p

def isDirectory (s : Store) (p : Path) : Bool := s.find? p == some .directory

/-- Puts an entry in place of the one that is there. -/
def put (s : Store) (p : Path) (e : Entry) : Store :=
  ⟨(p, e) :: s.entries.filter fun x => x.1 != p⟩

/-- Takes away an entry and all that is below it. -/
def remove (s : Store) (p : Path) : Store := ⟨s.entries.filter fun x => !p.isPrefixOf x.1⟩

/-- The pieces of a written path. -/
def pieces (name : String) : List String := (splitAtAll (· = '/') name.toList).map String.ofList

/-- Where a written path starts. -/
def start (name : String) : Path := if name.startsWith "/" then ["/"] else []

/-- A step of a written path from a directory. -/
def step (here : Path) (piece : String) : Path :=
  if piece = "" ∨ piece = "." then here
  else if piece = ".." then
    if here = ["/"] then here
    else if isGiven here then here ++ [".."]
    else here.dropLast
  else here ++ [piece]

/-- Where a written path leads; a step can be taken only from a directory. -/
def walk? (s : Store) (here : Path) : List String → Option Path
  | [] => some here
  | piece :: rest => if s.isDirectory here then walk? s (step here piece) rest else none

/-- The place of a written path; nothing need be there. -/
def locate? (s : Store) (name : String) : Option Path :=
  if name.isEmpty then none else s.walk? (start name) (pieces name)

/-- What a written path names. -/
def lookup? (s : Store) (name : String) : Option Entry := do s.find? (← s.locate? name)

def contains (s : Store) (name : String) : Bool := (s.lookup? name).isSome

/-- The text of a file. -/
def text? (s : Store) (name : String) : Option String :=
  match s.lookup? name with
  | some (.text content) => some content
  | _ => none

inductive WriteFault where
  | noFileName
  /-- Something is in the way. The directories that were made before it was met are left. -/
  | refused (left : Store)
  deriving DecidableEq, Repr

/-- Makes the directories on the way of some steps, until something else is in the way. Gives the
last of them. -/
def makeDirectories (s : Store) (here : Path) : List String → Option Path × Store
  | [] => (some here, s)
  | piece :: rest =>
    let there := step here piece
    match s.find? there with
    | some .directory => makeDirectories s there rest
    | some _ => (none, s)
    | none => makeDirectories (s.put there .directory) there rest

/-- The pieces of a path that name something. -/
def names (name : String) : List String := (pieces name).filter fun p => p ≠ "" ∧ p ≠ "."

/-- Makes a directory together with those above it. -/
def makeDirectory? (s : Store) (name : String) : Option Store :=
  match s.makeDirectories (start name) (names name) with
  | (some _, s) => some s
  | (none, _) => none

/-- Writes a file, and makes the directories above it. -/
def write (s : Store) (name : String) (e : Entry) : Except WriteFault Store :=
  match (names name).getLast? with
  | none | some ".." => .error .noFileName
  | some last =>
    match s.makeDirectories (start name) (names name).dropLast with
    | (none, s) => .error (.refused s)
    | (some here, s) =>
      if (pieces name).getLast? = some last ∧ !s.isDirectory (here ++ [last]) then
        .ok (s.put (here ++ [last]) e)
      else .error (.refused s)

end Store

end ReleaseInstaller
