/-! Texts as lists of characters: places in them, white space and words, pieces and lines, and the
decimals of integers. -/
namespace ReleaseInstaller.Text

/-! Places in a text, counted in bytes of its UTF-8 form. -/

/-- The number of bytes of a text in UTF-8. -/
def byteLength : List Char → Nat
  | [] => 0
  | c :: rest => c.utf8Size + byteLength rest

/-- A stretch of a text. -/
structure Span where
  /-- The bytes before it. -/
  offset : Nat
  /-- The bytes in it. -/
  length : Nat
  deriving DecidableEq, Repr, Inhabited

/-- The stretch from one offset up to another. -/
def Span.between (start stop : Nat) : Span := ⟨start, stop - start⟩

/-- The offset just past the stretch. -/
def Span.stop (s : Span) : Nat := s.offset + s.length

@[simp] theorem byteLength_nil : byteLength [] = 0 := rfl

@[simp] theorem byteLength_cons (c : Char) (s : List Char) :
    byteLength (c :: s) = c.utf8Size + byteLength s := rfl

@[simp] theorem byteLength_append (s t : List Char) :
    byteLength (s ++ t) = byteLength s + byteLength t := by
  induction s with
  | nil => simp
  | cons c s ih => simp [ih, Nat.add_assoc]

/-! White space: the Unicode property `White_Space`, trimming, and splitting into words. -/

/-- A character with the property `White_Space`. -/
def isBlank (c : Char) : Bool :=
  (9 ≤ c.toNat && c.toNat ≤ 13) || c.toNat == 0x20 || c.toNat == 0x85 || c.toNat == 0xa0 ||
    c.toNat == 0x1680 || (0x2000 ≤ c.toNat && c.toNat ≤ 0x200a) || c.toNat == 0x2028 ||
    c.toNat == 0x2029 || c.toNat == 0x202f || c.toNat == 0x205f || c.toNat == 0x3000

/-- The white space of ASCII, without the vertical tab. -/
def isAsciiBlank (c : Char) : Bool :=
  c == ' ' || c == '\t' || c == '\n' || c == '\r' || c == '\x0c'

/-- Drops the characters at the end that satisfy `p`. -/
def dropEndWhile (p : Char → Bool) (s : List Char) : List Char :=
  (s.reverse.dropWhile p).reverse

def trimStart (s : List Char) : List Char := s.dropWhile isBlank

def trimEnd (s : List Char) : List Char := dropEndWhile isBlank s

def trim (s : List Char) : List Char := trimEnd (trimStart s)

/-- The text up to the first white space, and the text after that one character. -/
def firstWord : List Char → List Char × List Char
  | [] => ([], [])
  | c :: rest => if isBlank c then ([], rest) else
      let (word, others) := firstWord rest
      (c :: word, others)

/-- The maximal runs of characters that are not white space, in order. -/
def words (s : List Char) : List (List Char) := go [] s
where
  /-- Splits the rest, after the run that ends with the reversed `run`. -/
  go (run : List Char) : List Char → List (List Char)
    | [] => flush run
    | c :: rest => if isBlank c then flush run ++ go [] rest else go (c :: run) rest
  flush (run : List Char) : List (List Char) :=
    if run.isEmpty then [] else [run.reverse]

/-! Cutting a text at separators. -/

/-- The pieces between the separators: one more than there are separators. -/
def splitAtAll (sep : Char → Bool) : List Char → List (List Char)
  | [] => [[]]
  | c :: rest =>
    if sep c then [] :: splitAtAll sep rest
    else match splitAtAll sep rest with
      | [] => [[c]]
      | piece :: pieces => (c :: piece) :: pieces

/-- The text before the first separator and the text after it. -/
def splitOnce? (sep : Char) : List Char → Option (List Char × List Char)
  | [] => none
  | c :: rest =>
    if c = sep then some ([], rest)
    else (splitOnce? sep rest).map fun p => (c :: p.1, p.2)

/-- The rest of a text that begins with `lead`. -/
def afterLead? (lead : String) (s : List Char) : Option (List Char) :=
  lead.toList.isPrefixOf? s

/-- The start of a text that ends with `tail`. -/
def beforeTail? (tail : String) (s : List Char) : Option (List Char) :=
  (tail.toList.reverse.isPrefixOf? s.reverse).map List.reverse

/-! Line ends: `CR LF` turned into `LF`, and texts cut into lines. -/

/-- Writes each `CR LF` as `LF`; a `CR` on its own stays. -/
def unixNewlines : List Char → List Char
  | [] => []
  | '\r' :: '\n' :: rest => '\n' :: unixNewlines rest
  | c :: rest => c :: unixNewlines rest

/-- The lines of a text, each with the `LF` that ends it; only the last may lack one. -/
def linesWithEnd : List Char → List (List Char)
  | [] => []
  | c :: rest => if c = '\n' then [c] :: linesWithEnd rest else
      match linesWithEnd rest with
      | [] => [[c]]
      | line :: lines => (c :: line) :: lines

/-- The line without its `LF`, or without its `CR LF`. -/
def dropLineEnd (line : List Char) : List Char :=
  match line.reverse with
  | '\n' :: '\r' :: body => body.reverse
  | '\n' :: body => body.reverse
  | _ => line

/-- The lines of a text without their ends. -/
def lines (s : List Char) : List (List Char) := (linesWithEnd s).map dropLineEnd

/-! Integers of 64 bits as texts. -/

/-- The integers of 64 bits with sign. -/
def isSmall (n : Int) : Bool := -9223372036854775808 ≤ n && n ≤ 9223372036854775807

/-- The decimal digits of an integer of 64 bits, after a minus sign if it is negative. -/
def smallDecimal? (n : Int) : Option String := if isSmall n then some (toString n) else none

end ReleaseInstaller.Text

/-! Words that a POSIX shell takes as they are: no character in them means anything to it. -/

namespace ReleaseInstaller.Shell

/-- Letters and digits of ASCII, and a few signs without a meaning to the shell. -/
def isWordChar (c : Char) : Bool :=
  c.isAlphanum || c == '-' || c == '_' || c == '.' || c == '+' || c == ',' || c == '@' ||
    c == '%' || c == ':' || c == '/' || c == '='

/-- A nonempty text of such characters. -/
def isWord (s : String) : Bool := !s.isEmpty && s.toList.all isWordChar

end ReleaseInstaller.Shell
