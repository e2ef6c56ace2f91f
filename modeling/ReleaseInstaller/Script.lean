import ReleaseInstaller.Text.Basic

/-! What counts in a script when it is compared with another one: its text without the dates of its
headings, or what it does apart from remarks and layout. -/
namespace ReleaseInstaller.Script
open Text

/-! Headings that say what generated a script, and when. -/

/-- The text before the first occurrence of `needle`. -/
def beforeFirst? (needle : List Char) : List Char → Option (List Char)
  | [] => if needle.isEmpty then some [] else none
  | c :: rest =>
    if needle.isPrefixOf (c :: rest) then some []
    else (beforeFirst? needle rest).map (c :: ·)

def headingLead : String := "# Code generated by "

def headingTail : String := ". DO NOT EDIT."

/-- A heading without its date. -/
def undatedHeading? (line : List Char) : Option (List Char) := do
  let inner ← beforeTail? headingTail (← afterLead? headingLead line)
  let generator ← beforeFirst? " on ".toList inner
  return headingLead.toList ++ generator ++ headingTail.toList

/-- A line, which may have an end, without the date of a heading. -/
def undatedLine (line : List Char) : List Char :=
  match line.reverse with
  | '\n' :: body => ((undatedHeading? body.reverse).map (· ++ ['\n'])).getD line
  | _ => (undatedHeading? line).getD line

/-- A script without the dates of its headings. -/
def undated (s : List Char) : List Char := (linesWithEnd s).flatMap undatedLine

/-- What a check compares: dates and the kind of line ends do not count. -/
def comparable (s : List Char) : List Char := unixNewlines (undated (unixNewlines s))

/-! What a script does. -/

/-- Words with one space between them. -/
def spaced : List (List Char) → List Char
  | [] => []
  | [w] => w
  | w :: rest => w ++ ' ' :: spaced rest

/-- A line that is neither empty nor a remark. -/
def isSubstantial (line : List Char) : Bool := !line.isEmpty && line.head? != some '#'

/-- The lines that do something, with one space between their words. -/
def substance (s : List Char) : List (List Char) :=
  (((lines s).map trim).filter isSubstantial).map fun line => spaced (words line)

end ReleaseInstaller.Script
