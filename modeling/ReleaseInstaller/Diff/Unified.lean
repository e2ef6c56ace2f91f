import ReleaseInstaller.Diff.Compaction
import ReleaseInstaller.Diff.Edit

/-! Unified diffs: the changes of a text with three lines of context. -/
namespace ReleaseInstaller.Diff

/-- Lines that are kept, or old lines that give way to new ones. -/
structure Change where
  isKept : Bool
  oldStart : Nat
  oldLength : Nat
  newStart : Nat
  newLength : Nat
  deriving DecidableEq, Repr

namespace Change

def ofEdit (e : Edit) : Change :=
  match e.kind with
  | .keep => ⟨true, e.oldStart, e.length, e.newStart, e.length⟩
  | .delete => ⟨false, e.oldStart, e.length, e.newStart, 0⟩
  | .insert => ⟨false, e.oldStart, 0, e.newStart, e.length⟩

/-- Joins two neighbours. The place of each side is that of the first lines on it. -/
def join (c d : Change) : Change :=
  { isKept := c.isKept
    oldStart := if c.oldLength = 0 then d.oldStart else c.oldStart
    oldLength := c.oldLength + d.oldLength
    newStart := if c.newLength = 0 then d.newStart else c.newStart
    newLength := c.newLength + d.newLength }

/-- Joins neighbours of the same sort to the change before them. -/
def joinFrom (c : Change) : List Edit → List Change
  | [] => [c]
  | e :: rest =>
    let d := ofEdit e
    if d.isKept = c.isKept then joinFrom (c.join d) rest else c :: joinFrom d rest

def ofScript : List Edit → List Change
  | [] => []
  | e :: rest => joinFrom (ofEdit e) rest

/-- Kept lines without the first `n`. -/
def dropLines (n : Nat) (c : Change) : Change :=
  { c with
    oldStart := c.oldStart + n, oldLength := c.oldLength - n
    newStart := c.newStart + n, newLength := c.newLength - n }

/-- The first `n` of kept lines. -/
def takeLines (n : Nat) (c : Change) : Change :=
  { c with oldLength := min n c.oldLength, newLength := min n c.newLength }

end Change

/-- The number of kept lines around a change. -/
def context : Nat := 3

/-- Shortens kept lines at the beginning of a script. -/
def trimFirst : List Change → List Change
  | c :: rest => (if c.isKept then c.dropLines (c.oldLength - context) else c) :: rest
  | [] => []

/-- Shortens kept lines at the end of a script. -/
def trimLast : List Change → List Change
  | [] => []
  | [c] => [if c.isKept then c.takeLines context else c]
  | c :: rest => c :: trimLast rest

/-- Cuts a script where more lines are kept than two hunks show, given the changes of the hunk so
far. -/
def hunksFrom (hunk : List Change) : List Change → List (List Change)
  | [] => if hunk.all (·.isKept) then [] else [hunk]
  | c :: rest =>
    if c.isKept && 2 * context < c.oldLength then
      (hunk ++ [c.takeLines context]) :: hunksFrom [c.dropLines (c.oldLength - context)] rest
    else hunksFrom (hunk ++ [c]) rest

/-- The parts of a script that are shown. -/
def hunks (script : List Change) : List (List Change) := hunksFrom [] (trimLast (trimFirst script))

/-- A range of lines in the heading of a hunk. An empty one has the number of the line before it. -/
def rangeText (start length : Nat) : String :=
  if length = 1 then toString (start + 1)
  else if length = 0 then toString start ++ ",0"
  else toString (start + 1) ++ "," ++ toString length

/-- A line with its sign. -/
def lineText (sign line : String) : String :=
  sign ++ line ++ if line.endsWith "\n" || line.endsWith "\r" then ""
    else "\n\\ No newline at end of file\n"

variable (old new : Array String)

def changeText (c : Change) : String :=
  let texts (sign : String) (lines : Array String) (start length : Nat) : String :=
    String.join ((lines.extract start (start + length)).toList.map (lineText sign))
  if c.isKept then texts " " old c.oldStart c.oldLength
  else texts "-" old c.oldStart c.oldLength ++ texts "+" new c.newStart c.newLength

def hunkText (hunk : List Change) : String :=
  match hunk, hunk.getLast? with
  | first :: _, some last =>
    "@@ -" ++ rangeText first.oldStart (last.oldStart + last.oldLength - first.oldStart) ++
      " +" ++ rangeText first.newStart (last.newStart + last.newLength - first.newStart) ++
      " @@\n" ++ String.join (hunk.map (changeText old new))
  | _, _ => ""

/-- The lines of a text with their ends, which are `LF`, `CR LF` or `CR`. -/
def linesOf (s : List Char) : List (List Char) := go [] s
where
  /-- The lines from a place on, after the reversed beginning of one. -/
  go (line : List Char) : List Char → List (List Char)
    | [] => if line.isEmpty then [] else [line.reverse]
    | '\r' :: '\n' :: rest => ('\n' :: '\r' :: line).reverse :: go [] rest
    | c :: rest =>
      if c = '\r' ∨ c = '\n' then (c :: line).reverse :: go [] rest else go (c :: line) rest

def lineArray (s : List Char) : Array String := ((linesOf s).map String.ofList).toArray

/-- The differences between two texts under a name, if there are any. -/
def unified? (name : String) (old new : List Char) : Option String :=
  if old = new then none
  else
    let a := lineArray old
    let b := lineArray new
    let changes := Change.ofScript (compact a b (anchored a b))
    some ("--- " ++ name ++ "\n+++ " ++ name ++ "\n" ++
      String.join ((hunks changes).map (hunkText a b)))

end ReleaseInstaller.Diff
