import ReleaseInstaller.Text.Utf8
import ReleaseInstaller.Yaml.Cursor

/-! The texts of scalars, plain, quoted and in blocks: lines are folded, and escapes are resolved. -/
namespace ReleaseInstaller.Yaml
open Text

inductive Style where
  | plain | singleQuoted | doubleQuoted | literal | folded
  deriving DecidableEq, Repr

/-- White space and line breaks between the words of a scalar. -/
structure Gap where
  /-- The white space, as long as no line has ended. -/
  blanks : List Char
  /-- A line has ended. -/
  broken : Bool
  /-- The first line break. -/
  first : List Char
  /-- The line breaks after it. -/
  more : List Char

namespace Gap

def empty : Gap := ⟨[], false, [], []⟩

/-- What the gap stands for: one line break turns into a space, and of several the first is lost. -/
def fold (g : Gap) : List Char :=
  if !g.broken then g.blanks
  else if g.first = ['\n'] then (if g.more = [] then [' '] else g.more)
  else g.first ++ g.more

/-- Takes in white space and line breaks. Within the first `margin` columns of a further line there
may be no tab. -/
def read? (margin : Nat) (steps : Nat) (g : Gap) (c : Cursor) : Option (Gap × Cursor) :=
  match steps with
  | 0 => none
  | n + 1 =>
    match c.peek? with
    | none => some (g, c)
    | some x =>
      if isBlank x then
        if g.broken && x == '\t' && c.column < margin then none
        else read? margin n (if g.broken then g else { g with blanks := g.blanks ++ [x] }) (c.skip 1)
      else if isBreak x then
        let (b, c) := c.takeBreak
        read? margin n
          (if g.broken then { g with more := g.more ++ b }
            else { g with blanks := [], broken := true, first := b }) c
      else some (g, c)

end Gap

/-- Signs that end a plain scalar inside brackets. -/
def isFlowSign (x : Char) : Bool := x == ',' || x == '[' || x == ']' || x == '\x7b' || x == '\x7d'

/-- A run of plain characters and the text after it. A colon before a gap ends it, and inside brackets
so does a sign of theirs; there a colon may not stand before one. -/
def plainRun? (inFlow : Bool) : List Char → Option (List Char × List Char)
  | [] => some ([], [])
  | x :: rest =>
    if atGap (x :: rest) then some ([], x :: rest)
    else if inFlow && x == ':' && (rest.head?.any fun y => isFlowSign y || y == '?') then none
    else if (x == ':' && atGap rest) || (inFlow && isFlowSign x) then some ([], x :: rest)
    else (plainRun? inFlow rest).map fun (run, rest) => (x :: run, rest)

/-- Reads on in a plain scalar: the text so far, the gap after it, and the place. -/
def plainFrom? (inFlow : Bool) (margin : Nat) (steps : Nat) (text : List Char) (g : Gap)
    (c : Cursor) : Option (List Char × Gap × Cursor) :=
  match steps with
  | 0 => none
  | n + 1 =>
    if c.isAtDocumentMark || c.isAt '#' then some (text, g, c)
    else do
      let (run, _) ← plainRun? inFlow c.rest
      let (text, g) := if run.isEmpty then (text, g) else (text ++ g.fold ++ run, Gap.empty)
      let c := c.skip run.length
      if c.rest.isEmpty || !atGap c.rest then return (text, g, c)
      else
        let (g, c) ← Gap.read? margin c.steps .empty c
        if !inFlow && c.column < margin then return (text, g, c)
        else plainFrom? inFlow margin n text g c

/-- A plain scalar, the place after it, and whether a line has ended on the way there. -/
def plain? (inFlow : Bool) (margin : Nat) (c : Cursor) : Option (String × Bool × Cursor) :=
  (plainFrom? inFlow margin c.steps [] .empty c).map fun (text, g, c) =>
    (String.ofList text, g.broken, c)

/-- The character that a letter after a backslash stands for. -/
def letterEscape? (x : Char) : Option Char :=
  match x with
  | '0' => some '\x00'
  | 'a' => some '\x07'
  | 'b' => some '\x08'
  | 't' | '\t' => some '\t'
  | 'n' => some '\n'
  | 'v' => some '\x0b'
  | 'f' => some '\x0c'
  | 'r' => some '\r'
  | 'e' => some '\x1b'
  | ' ' => some ' '
  | '"' => some '"'
  | '/' => some '/'
  | '\\' => some '\\'
  | 'N' => some (Char.ofNat 0x85)
  | '_' => some (Char.ofNat 0xa0)
  | 'L' => some (Char.ofNat 0x2028)
  | 'P' => some (Char.ofNat 0x2029)
  | _ => none

/-- The number of hexadecimal digits after a letter that announces a code point. -/
def codeLength? (x : Char) : Option Nat :=
  match x with
  | 'x' => some 2
  | 'u' => some 4
  | 'U' => some 8
  | _ => none

/-- The character with the code point that the digits spell. -/
def charOfDigits? (digits : List Char) : Option Char := do
  let n ← digits.foldlM (fun n d => (hexValue? d).map (16 * n + ·)) 0
  guard ((n < 0xd800 || 0xdfff < n) && n ≤ 0x10ffff)
  return Char.ofNat n

/-- A word of a quoted scalar up to a gap, the closing quote, or an escaped line break; the last is
told by the flag. -/
def quotedWord? (single : Bool) (steps : Nat) (c : Cursor) :
    Option (List Char × Bool × Cursor) :=
  match steps with
  | 0 => none
  | n + 1 =>
    let further (text : List Char) (c : Cursor) :=
      (quotedWord? single n c).map fun (word, broken, c) => (text ++ word, broken, c)
    match c.rest with
    | [] => some ([], false, c)
    | x :: rest =>
      if isBlank x || isBreak x then some ([], false, c)
      else if single && x == '\'' then
        if rest.head? == some '\'' then further ['\''] (c.skip 2) else some ([], false, c)
      else if !single && x == '"' then some ([], false, c)
      else if !single && x == '\\' then
        match rest with
        | [] => none
        | y :: digits =>
          if isBreak y then some ([], true, (c.skip 1).takeBreak.2)
          else
            match letterEscape? y, codeLength? y with
            | some z, _ => further [z] (c.skip 2)
            | none, some k =>
              if k ≤ digits.length then
                (charOfDigits? (digits.take k)).bind fun z => further [z] (c.skip (2 + k))
              else none
            | none, none => none
      else further [x] (c.skip 1)

/-- Reads on in a quoted scalar, after its opening quote or a gap. -/
def quotedFrom? (single : Bool) (steps : Nat) (text : List Char) (c : Cursor) :
    Option (List Char × Cursor) :=
  match steps with
  | 0 => none
  | n + 1 =>
    if c.isAtDocumentMark || c.rest.isEmpty then none
    else do
      let (word, broken, c) ← quotedWord? single c.steps c
      let text := text ++ word
      if c.isAt (if single then '\'' else '"') then return (text, c.skip 1)
      else
        let (g, c) ← Gap.read? 0 c.steps { Gap.empty with broken := broken } c
        quotedFrom? single n (text ++ g.fold) c

/-- A quoted scalar, and the place after its closing quote. -/
def quoted? (single : Bool) (c : Cursor) : Option (String × Cursor) :=
  (quotedFrom? single c.steps [] (c.skip 1)).map fun (text, c) => (String.ofList text, c)

/-- What becomes of the line breaks at the end of a block. -/
inductive Chomping where
  | strip | clip | keep
  deriving DecidableEq, Repr

/-- The sign for chomping, which may be missing. -/
def chomping (c : Cursor) : Option Chomping × Cursor :=
  if c.isAt '+' then (some .keep, c.skip 1)
  else if c.isAt '-' then (some .strip, c.skip 1)
  else (none, c)

/-- The digit for the indentation, which may be missing and is not zero. -/
def indentDigit? (c : Cursor) : Option (Nat × Cursor) :=
  match c.peek? with
  | some x =>
    if x == '0' then none
    else if x.isDigit then some (x.toNat - 0x30, c.skip 1)
    else some (0, c)
  | none => some (0, c)

/-- The header of a block after its first sign: indentation, or zero if it is to be found out, and
chomping, in either order. -/
def blockHeader? (c : Cursor) : Option (Nat × Chomping × Cursor) := do
  let (early, c) := chomping c
  let (digit, c) ← indentDigit? c
  let (late, c) := if early.isNone && digit != 0 then chomping c else (none, c)
  return (digit, (early <|> late).getD .clip, ← c.endLine?)

/-- Passes over empty lines and the indentation of the next line. With no indentation given, the
widest line decides, and it is `least` at least. Gives the indentation and the line breaks. -/
def blockGap? (least : Nat) (steps : Nat) (indent widest : Nat) (breaks : List Char) (c : Cursor) :
    Option (Nat × List Char × Cursor) :=
  match steps with
  | 0 => none
  | n + 1 =>
    let spaces := (c.rest.takeWhile (· == ' ')).length
    let c := c.skip (if indent = 0 then spaces else min spaces (indent - c.column))
    let widest := max widest c.column
    if (indent = 0 || c.column < indent) && c.isAt '\t' then none
    else if c.peek?.any isBreak then
      let (b, c) := c.takeBreak
      blockGap? least n indent widest (breaks ++ b) c
    else some (if indent = 0 then max widest (max least 1) else indent, breaks, c)

/-- The parts of a block scalar that its next line decides about. -/
structure Block where
  text : List Char
  /-- The line break after the last line. -/
  lineEnd : List Char
  /-- The line breaks of the empty lines after it. -/
  empty : List Char
  /-- The last line begins with white space. -/
  blankBefore : Bool

/-- Adds a line. In a folded block a line break between two lines that begin with a word turns into a
space, or is lost if empty lines follow it. -/
def Block.addLine (b : Block) (isLiteral : Bool) (line lineEnd empty : List Char) : Block :=
  let blank := line.head?.any isBlank
  let lead :=
    if !isLiteral && b.lineEnd.head? == some '\n' && !b.blankBefore && !blank then
      if b.empty.isEmpty then [' '] else []
    else b.lineEnd
  ⟨b.text ++ lead ++ b.empty ++ line, lineEnd, empty, blank⟩

/-- The finished text. -/
def Block.finish (b : Block) : Chomping → List Char
  | .strip => b.text
  | .clip => b.text ++ b.lineEnd
  | .keep => b.text ++ b.lineEnd ++ b.empty

/-- Reads the lines that stand at the indentation. -/
def blockLines? (isLiteral : Bool) (indent : Nat) (steps : Nat) (b : Block) (c : Cursor) :
    Option (Block × Cursor) :=
  match steps with
  | 0 => none
  | n + 1 =>
    if c.column != indent || c.rest.isEmpty then some (b, c)
    else do
      let line := c.rest.takeWhile fun x => !isBreak x
      let (lineEnd, c) := (c.skip line.length).takeBreak
      let (_, breaks, c) ← blockGap? 0 c.steps indent 0 [] c
      blockLines? isLiteral indent n (b.addLine isLiteral line lineEnd breaks) c

/-- A block scalar whose lines stand to the right of `margin` columns, and the place after it. -/
def block? (isLiteral : Bool) (margin : Nat) (c : Cursor) : Option (String × Cursor) := do
  let (digit, chomp, c) ← blockHeader? (c.skip 1)
  let given := if digit = 0 then 0 else (margin - 1) + digit
  let (indent, breaks, c) ← blockGap? margin c.steps given 0 [] c
  let (b, c) ← blockLines? isLiteral indent c.steps ⟨[], [], breaks, false⟩ c
  return (String.ofList (b.finish chomp), c)

end ReleaseInstaller.Yaml
