import ReleaseInstaller.Installer.Draft

/-! The templates that the program brings along, in directories, and how a key names one of them. -/
namespace ReleaseInstaller.Bundle
open Text

/-- A template and the key under which it is filed. -/
structure File where
  name : String
  path : String
  deriving DecidableEq, Repr

inductive Entry where
  | file (f : File)
  | directory (entries : List (String × Entry))
  deriving Repr, Inhabited

abbrev Directory := List (String × Entry)

/-- What the templates are made from: files, of which only those that end in `.j2` hold a template,
and directories. -/
inductive Source where
  | file (name : String)
  | directory (name : String) (sources : List Source)
  deriving Repr

/-- The name of a file without the ending of templates, before which something must stand. -/
def templateName? (fileName : String) : Option String :=
  match beforeTail? ".j2" fileName.toList with
  | some (c :: rest) => some (String.ofList (c :: rest))
  | _ => none

/-- The parts of a key. -/
def parts (key : String) : List String := (splitAtAll (· = '/') key.toList).map String.ofList

/-- The key that consists of these parts. -/
def pathOf (parts : List String) : String := "/".intercalate parts

/-- Files an entry under its name, in place of one that is there. -/
def put (d : Directory) (name : String) (e : Entry) : Directory :=
  (name, e) :: d.filter fun x => x.1 != name

mutual

/-- Files what comes from a source in the directory at some place. Fails if a template would be called
`.` or `..`, which is no name. -/
def Source.load? (place : List String) (d : Directory) : Source → Option Directory
  | file fileName =>
    match templateName? fileName with
    | none => some d
    | some name =>
      if name = "." ∨ name = ".." then none
      else some (put d name (.file ⟨name, pathOf (place ++ [name])⟩))
  | directory name sources =>
    match loadAll? (place ++ [name]) [] sources with
    | none => none
    | some entries => some (put d name (.directory entries))

/-- Files what comes from the sources, one after the other. -/
def Source.loadAll? (place : List String) (d : Directory) : List Source → Option Directory
  | [] => some d
  | s :: rest =>
    match s.load? place d with
    | none => none
    | some d => loadAll? place d rest

end

/-- The directory with the templates from some sources. -/
def load? (sources : List Source) : Option Directory := Source.loadAll? [] [] sources

/-- Follows the parts of a key from a directory. A part after that of a file is looked up in the
directory of the file. -/
def follow? (d : Directory) (found : Option Entry) : List String → Option Entry
  | [] => found
  | part :: rest =>
    match d.lookup part with
    | some (.directory entries) => follow? entries (some (.directory entries)) rest
    | some (.file f) => follow? d (some (.file f)) rest
    | none => none

/-- The file that a key names; none if it names nothing or a directory. -/
def find? (d : Directory) (key : String) : Option File :=
  match follow? d none (parts key) with
  | some (.file f) => some f
  | _ => none

/-- There is one template. -/
def sources : List Source := [.directory "installer" [.file "installer.sh.j2"]]

/-- The templates of the program. -/
def templates : Directory := (load? sources).getD []

/-- The text of the template that a key names, with the given values. -/
def renderValues? (key : String) (values : Template.Scope) : Option (Except Template.Fault String) :=
  (find? templates key).map fun _ => Installer.fill values

/-- The text of the template that a key names, with the values of a draft. -/
def render? (key : String) (d : Installer.Draft) : Option (Except Template.Fault String) :=
  renderValues? key d.values

end ReleaseInstaller.Bundle
