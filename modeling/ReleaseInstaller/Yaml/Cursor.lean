/-! A place in a YAML text, and the moves from it. -/
namespace ReleaseInstaller.Yaml

def isBreak (c : Char) : Bool :=
  c == '\r' || c == '\n' || c.toNat == 0x85 || c.toNat == 0x2028 || c.toNat == 0x2029

def isBlank (c : Char) : Bool := c == ' ' || c == '\t'

/-- Characters of anchors, directives and tag handles. -/
def isNameChar (c : Char) : Bool := c.isAlphanum || c == '-' || c == '_'

/-- Characters that may occur in a text at all. -/
def isAllowed (c : Char) : Bool :=
  c == '\t' || c == '\n' || c == '\r' || (0x20 ≤ c.toNat && c.toNat ≤ 0x7e) || c.toNat == 0x85 ||
    (0xa0 ≤ c.toNat && c.toNat ≤ 0xfffd) || 0x10000 ≤ c.toNat

/-- The text begins with white space or a line break, or is at its end. -/
def atGap : List Char → Bool
  | [] => true
  | c :: _ => isBlank c || isBreak c

structure Cursor where
  /-- The text that is still to be read. -/
  rest : List Char
  /-- The number of characters read. -/
  index : Nat
  line : Nat
  /-- The number of characters read on this line. -/
  column : Nat
  deriving Repr

namespace Cursor

def start (text : List Char) : Cursor := ⟨text, 0, 0, 0⟩

/-- An upper bound for the number of steps to the end of the text. -/
def steps (c : Cursor) : Nat := c.rest.length + 1

def peek? (c : Cursor) : Option Char := c.rest.head?

/-- The next character is `x`. -/
def isAt (c : Cursor) (x : Char) : Bool := c.rest.head? == some x

/-- Passes over `n` characters that do not break the line. -/
def skip (c : Cursor) (n : Nat) : Cursor :=
  { c with rest := c.rest.drop n, index := c.index + n, column := c.column + n }

/-- Passes over the characters that satisfy `p`, which holds of no line break. -/
def skipWhile (c : Cursor) (p : Char → Bool) : Cursor := c.skip (c.rest.takeWhile p).length

/-- Passes over a line break, if one comes next, and gives what it stands for. -/
def takeBreak (c : Cursor) : List Char × Cursor :=
  match c.rest with
  | '\r' :: '\n' :: rest => (['\n'], ⟨rest, c.index + 2, c.line + 1, 0⟩)
  | x :: rest =>
    if x.toNat == 0x2028 || x.toNat == 0x2029 then ([x], ⟨rest, c.index + 1, c.line + 1, 0⟩)
    else if isBreak x then (['\n'], ⟨rest, c.index + 1, c.line + 1, 0⟩)
    else ([], c)
  | [] => ([], c)

/-- Passes over white space and a remark up to the end of the line. -/
def skipRemark (c : Cursor) : Cursor :=
  let c := c.skipWhile isBlank
  if c.isAt '#' then c.skipWhile fun x => !isBreak x else c

/-- The line holds nothing more than a remark; passes over its end. -/
def endLine? (c : Cursor) : Option Cursor :=
  let c := c.skipRemark
  match c.rest with
  | [] => some c
  | x :: _ => if isBreak x then some c.takeBreak.2 else none

/-- A mark of three characters that begins or ends a document stands here, at the start of a line. -/
def isAtMark (c : Cursor) (mark : Char) : Bool :=
  c.column == 0 && [mark, mark, mark].isPrefixOf c.rest && atGap (c.rest.drop 3)

def isAtDocumentMark (c : Cursor) : Bool := c.isAtMark '-' || c.isAtMark '.'

end Cursor

end ReleaseInstaller.Yaml
