import ReleaseInstaller.Yaml.Scalar

/-! The tokens of a YAML text. Where blocks begin and end is told by indentation; a key is known only
once its colon is found, and its marks then go in front of it. -/
namespace ReleaseInstaller.Yaml
open Text

inductive Token where
  | version (major minor : Nat)
  | tagDirective (handle lead : String)
  | documentStart | documentEnd
  | blockSequenceStart | blockMappingStart | blockEnd
  | flowSequenceStart | flowSequenceEnd
  | flowMappingStart | flowMappingEnd
  | blockEntry | flowEntry
  | key | value
  | reference (name : String)
  | anchor (name : String)
  | tag (handle suffix : String)
  | scalar (style : Style) (text : String)
  | streamEnd
  deriving DecidableEq, Repr

/-! Directives, anchors and tags. -/

/-- A number of one to nine digits. -/
def number? (c : Cursor) : Option (Nat × Cursor) :=
  let digits := c.rest.takeWhile Char.isDigit
  if digits.isEmpty || 9 < digits.length then none
  else some (digits.foldl (fun n d => 10 * n + (d.toNat - 0x30)) 0, c.skip digits.length)

/-- Characters of tags; some more stand in a tag that is written out. -/
def isTagChar (full : Bool) (x : Char) : Bool :=
  isNameChar x || ";/?:@&=+$.%!~*'()".toList.contains x || (full && ",[]".toList.contains x)

/-- Resolves the percent escapes of a tag; each needs two hexadecimal digits, and together they have
to spell characters. -/
def tagText? (s : List Char) : Option String :=
  if wellEscaped s then ofUtf8? (percentDecode s) else none
where
  wellEscaped : List Char → Bool
    | '%' :: a :: b :: rest => (hexValue? a).isSome && (hexValue? b).isSome && wellEscaped rest
    | '%' :: _ => false
    | _ :: rest => wellEscaped rest
    | [] => true

/-- The handle of a tag: an exclamation mark, or a name between two of them. Without the second one
it is the beginning of the tag itself, which a directive does not allow. -/
def tagHandle? (inDirective : Bool) (c : Cursor) : Option (List Char × Cursor) :=
  if !c.isAt '!' then none
  else
    let name := (c.skip 1).rest.takeWhile isNameChar
    let c := c.skip (1 + name.length)
    if c.isAt '!' then some ('!' :: name ++ ['!'], c.skip 1)
    else if inDirective && !name.isEmpty then none
    else some ('!' :: name, c)

/-- The rest of a tag that begins with `lead`. -/
def tagSuffix? (full : Bool) (lead : List Char) (c : Cursor) : Option (String × Cursor) := do
  let s := c.rest.takeWhile (isTagChar full)
  guard (!(lead.isEmpty && s.isEmpty))
  return (← tagText? (lead.drop 1 ++ s), c.skip s.length)

def tag? (inFlow : Bool) (c : Cursor) : Option (Token × Cursor) := do
  let (token, c) ←
    if ['!', '<'].isPrefixOf c.rest then do
      let (suffix, c) ← tagSuffix? true [] (c.skip 2)
      guard (c.isAt '>')
      pure (Token.tag "" suffix, c.skip 1)
    else do
      let (handle, c) ← tagHandle? false c
      if 2 ≤ handle.length && handle.getLast? == some '!' then
        let (suffix, c) ← tagSuffix? false [] c
        pure (.tag (String.ofList handle) suffix, c)
      else
        let (suffix, c) ← tagSuffix? false handle c
        pure (if suffix.isEmpty then .tag "" "!" else .tag "!" suffix, c)
  guard (atGap c.rest || (inFlow && c.isAt ','))
  return (token, c)

/-- The name of an anchor or of a reference to one, after its sign. -/
def anchorName? (c : Cursor) : Option (String × Cursor) :=
  let name := (c.skip 1).rest.takeWhile isNameChar
  let c := c.skip (1 + name.length)
  if !name.isEmpty && (atGap c.rest || c.rest.head?.any fun x => "?:,]\x7d%@`".toList.contains x) then
    some (String.ofList name, c)
  else none

def directive? (c : Cursor) : Option (Token × Cursor) := do
  let name := (c.skip 1).rest.takeWhile isNameChar
  let c := c.skip (1 + name.length)
  guard (atGap c.rest)
  let c := c.skipWhile isBlank
  let (token, c) ←
    if name = "YAML".toList then do
      let (major, c) ← number? c
      guard (c.isAt '.')
      let (minor, c) ← number? (c.skip 1)
      pure (Token.version major minor, c)
    else if name = "TAG".toList then do
      let (handle, c) ← tagHandle? true c
      guard (c.peek?.any isBlank)
      let (lead, c) ← tagSuffix? true [] (c.skipWhile isBlank)
      guard (atGap c.rest)
      pure (.tagDirective (String.ofList handle) lead, c)
    else none
  return (token, ← c.endLine?)

/-! The lexer. -/

/-- A token that turns into a key if a colon follows in time. -/
structure KeyCandidate where
  /-- The number of tokens before it. -/
  position : Nat
  /-- The place where it begins. -/
  index : Nat
  line : Nat
  column : Nat
  /-- The layout leaves it no other role than that of a key. -/
  required : Bool

structure Lexer where
  cursor : Cursor
  tokens : Array Token
  /-- The columns of the open blocks, innermost first. -/
  blocks : List Nat
  /-- For each open bracket, innermost first, and for the text around all of them: the candidate. -/
  candidates : List (Option KeyCandidate)
  /-- A key may begin here. -/
  keyAllowed : Bool

namespace Lexer

def start (text : List Char) : Lexer := ⟨.start text, #[], [], [none], true⟩

def inFlow (s : Lexer) : Bool := 1 < s.candidates.length

/-- The column from which on text belongs to the innermost block. -/
def margin (s : Lexer) : Nat :=
  match s.blocks with
  | [] => 0
  | column :: _ => column + 1

def push (s : Lexer) (t : Token) : Lexer := { s with tokens := s.tokens.push t }

/-- Adds the token of a sign of `n` characters and passes over it. -/
def pushSign (s : Lexer) (t : Token) (n : Nat) : Lexer :=
  { s.push t with cursor := s.cursor.skip n }

/-- A candidate has to be followed by its colon on the same line and within 1024 characters. -/
def isStale (s : Lexer) (k : KeyCandidate) : Bool :=
  k.line < s.cursor.line || k.index + 1024 < s.cursor.index

/-- Gives up the candidates whose time is over; none may be required. -/
def dropStale? (s : Lexer) : Option Lexer := do
  let candidates ← s.candidates.mapM fun
    | some k => if s.isStale k then (if k.required then none else some none) else some (some k)
    | none => some none
  return { s with candidates }

/-- Gives up the innermost candidate, which may not be required. -/
def dropCandidate? (s : Lexer) : Option Lexer :=
  match s.candidates with
  | some k :: outer => if k.required then none else some { s with candidates := none :: outer }
  | _ => some s

/-- Makes the token that begins here a candidate, if a key may stand here. -/
def noteCandidate? (s : Lexer) : Option Lexer :=
  if s.keyAllowed then do
    let s ← s.dropCandidate?
    let c := s.cursor
    let k : KeyCandidate := {
      position := s.tokens.size
      index := c.index
      line := c.line
      column := c.column
      required := !s.inFlow && s.blocks.head? == some c.column }
    return { s with candidates := some k :: s.candidates.tail }
  else some s

/-- Opens a block at a column to the right of the others; its first token gets the given position. -/
def openBlock (s : Lexer) (column : Nat) (t : Token) (position : Nat) : Lexer :=
  if !s.inFlow && s.margin ≤ column then
    { s with
      blocks := column :: s.blocks
      tokens := s.tokens.insertIdxIfInBounds position t }
  else s

/-- Closes the blocks to the right of a column. -/
def closeBlocks (keep : Nat → Bool) (s : Lexer) : Lexer :=
  if s.inFlow then s
  else
    let closed := s.blocks.takeWhile fun column => !keep column
    { s with
      blocks := s.blocks.drop closed.length
      tokens := s.tokens ++ (closed.map fun _ => Token.blockEnd).toArray }

/-- Passes over white space, remarks and line breaks. Tabs count as white space only where no key may
begin, and a byte order mark may begin a line. -/
def skipGaps (s : Lexer) (steps : Nat) : Lexer :=
  match steps with
  | 0 => s
  | n + 1 =>
    let c := s.cursor
    let c := if c.column == 0 && c.isAt (Char.ofNat 0xfeff) then c.skip 1 else c
    let c := c.skipWhile fun x => x == ' ' || (x == '\t' && (s.inFlow || !s.keyAllowed))
    let c := if c.isAt '#' then c.skipWhile fun x => !isBreak x else c
    if c.peek?.any isBreak then
      skipGaps { s with cursor := c.takeBreak.2, keyAllowed := s.keyAllowed || !s.inFlow } n
    else { s with cursor := c }

/-- A token that closes all blocks and that no key can contain. -/
def outsideBlocks? (s : Lexer) : Option Lexer := do
  let s ← (s.closeBlocks fun _ => false).dropCandidate?
  return { s with keyAllowed := false }

def flowStart? (s : Lexer) (t : Token) : Option Lexer := do
  let s ← s.noteCandidate?
  return { s.pushSign t 1 with candidates := none :: s.candidates, keyAllowed := true }

def flowEnd? (s : Lexer) (t : Token) : Option Lexer := do
  let s ← s.dropCandidate?
  let outer := if s.inFlow then s.candidates.tail else s.candidates
  return { s.pushSign t 1 with candidates := outer, keyAllowed := false }

def flowEntry? (s : Lexer) : Option Lexer := do
  let s ← s.dropCandidate?
  return { s.pushSign .flowEntry 1 with keyAllowed := true }

def blockEntry? (s : Lexer) : Option Lexer := do
  guard (s.inFlow || s.keyAllowed)
  let s := s.openBlock s.cursor.column .blockSequenceStart s.tokens.size
  let s ← s.dropCandidate?
  return { s.pushSign .blockEntry 1 with keyAllowed := true }

def key? (s : Lexer) : Option Lexer := do
  guard (s.inFlow || s.keyAllowed)
  let s := s.openBlock s.cursor.column .blockMappingStart s.tokens.size
  let s ← s.dropCandidate?
  return { s.pushSign .key 1 with keyAllowed := !s.inFlow }

/-- A colon: after a candidate this one was a key, otherwise a key stands before it that is empty or
has a mark of its own. -/
def value? (s : Lexer) : Option Lexer :=
  match s.candidates with
  | some k :: outer =>
    let s := { s with tokens := s.tokens.insertIdxIfInBounds k.position .key }
    let s := s.openBlock k.column .blockMappingStart k.position
    some { s.pushSign .value 1 with candidates := none :: outer, keyAllowed := false }
  | _ => do
    guard (s.inFlow || s.keyAllowed)
    let s := s.openBlock s.cursor.column .blockMappingStart s.tokens.size
    return { s.pushSign .value 1 with keyAllowed := !s.inFlow }

/-- A token that may be a key or the start of one. -/
def node? (s : Lexer) (read : Cursor → Option (Token × Bool × Cursor)) : Option Lexer := do
  let s ← s.noteCandidate?
  let (t, keyAllowed, cursor) ← read s.cursor
  return { s.push t with cursor, keyAllowed }

def blockScalar? (s : Lexer) (style : Style) : Option Lexer := do
  let s ← s.dropCandidate?
  let (text, cursor) ← block? (style = .literal) s.margin s.cursor
  return { s.push (.scalar style text) with cursor, keyAllowed := true }

/-- A plain scalar may begin with a character that has no other meaning there. -/
def startsPlain (inFlow : Bool) (x : Char) (rest : List Char) : Bool :=
  !(atGap [x] || "-?:,[]\x7b\x7d#&*!|>'\"%@`".toList.contains x) ||
    (x == '-' && !rest.head?.any isBlank) ||
    (!inFlow && (x == '?' || x == ':') && !atGap rest)

/-- The token that begins at the character `x`, which is no white space. -/
def next? (s : Lexer) (x : Char) (rest : List Char) : Option Lexer :=
  if s.cursor.column == 0 && x == '%' then do
    let s ← s.outsideBlocks?
    let (t, cursor) ← directive? s.cursor
    return { s.push t with cursor }
  else if s.cursor.isAtMark '-' then (s.outsideBlocks?).map (·.pushSign .documentStart 3)
  else if s.cursor.isAtMark '.' then (s.outsideBlocks?).map (·.pushSign .documentEnd 3)
  else if x == '[' then s.flowStart? .flowSequenceStart
  else if x == '\x7b' then s.flowStart? .flowMappingStart
  else if x == ']' then s.flowEnd? .flowSequenceEnd
  else if x == '\x7d' then s.flowEnd? .flowMappingEnd
  else if x == ',' then s.flowEntry?
  else if x == '-' && atGap rest then s.blockEntry?
  else if x == '?' && (s.inFlow || atGap rest) then s.key?
  else if x == ':' && (s.inFlow || atGap rest) then s.value?
  else if x == '*' then
    s.node? fun c => (anchorName? c).map fun (name, c) => (.reference name, false, c)
  else if x == '&' then
    s.node? fun c => (anchorName? c).map fun (name, c) => (.anchor name, false, c)
  else if x == '!' then s.node? fun c => (tag? s.inFlow c).map fun (t, c) => (t, false, c)
  else if x == '|' && !s.inFlow then s.blockScalar? .literal
  else if x == '>' && !s.inFlow then s.blockScalar? .folded
  else if x == '\'' then
    s.node? fun c => (quoted? true c).map fun (t, c) => (.scalar .singleQuoted t, false, c)
  else if x == '"' then
    s.node? fun c => (quoted? false c).map fun (t, c) => (.scalar .doubleQuoted t, false, c)
  else if startsPlain s.inFlow x rest then
    s.node? fun c => (plain? s.inFlow s.margin c).map fun (t, broken, c) =>
      (.scalar .plain t, broken, c)
  else none

/-- The tokens from here on. At the end of the text all blocks close. -/
def run? (s : Lexer) (steps : Nat) : Option (List Token) :=
  match steps with
  | 0 => none
  | n + 1 => do
    let s ← (s.skipGaps s.cursor.steps).dropStale?
    let s := s.closeBlocks fun column => column ≤ s.cursor.column
    match s.cursor.rest with
    | [] =>
      let s ← s.outsideBlocks?
      return (s.push .streamEnd).tokens.toList
    | x :: rest => run? (← s.next? x rest) n

end Lexer

/-- The tokens of a text, if it has any sense as YAML so far. -/
def Token.ofText? (text : String) : Option (List Token) :=
  if text.toList.all isAllowed then
    (Lexer.start text.toList).run? (text.toList.length + 1)
  else none

end ReleaseInstaller.Yaml
