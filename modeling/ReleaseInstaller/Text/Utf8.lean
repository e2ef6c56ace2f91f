/-! Bytes and text: reading UTF-8, with or without leniency, and percent escapes. -/
namespace ReleaseInstaller.Text

/-- The bytes of a character in UTF-8. -/
def utf8Bytes (c : Char) : List UInt8 := (String.singleton c).toUTF8.toList

/-- The text that the bytes spell, if they are UTF-8. -/
def ofUtf8? (bytes : List UInt8) : Option String := String.fromUTF8? ⟨bytes.toArray⟩

/-- A character of which some bytes are still to come: their number, the bits read so far, and the
range of the next byte. -/
structure Started where
  missing : Nat
  bits : Nat
  least : Nat
  greatest : Nat

/-- What the first byte of a character says; none if no character begins with it. -/
def started? (b : Nat) : Option Started :=
  if b < 0x80 then some ⟨0, b, 0x80, 0xbf⟩
  else if 0xc2 ≤ b ∧ b ≤ 0xdf then some ⟨1, b - 0xc0, 0x80, 0xbf⟩
  else if b = 0xe0 then some ⟨2, 0, 0xa0, 0xbf⟩
  else if b = 0xed then some ⟨2, 0xd, 0x80, 0x9f⟩
  else if 0xe1 ≤ b ∧ b ≤ 0xef then some ⟨2, b - 0xe0, 0x80, 0xbf⟩
  else if b = 0xf0 then some ⟨3, 0, 0x90, 0xbf⟩
  else if b = 0xf4 then some ⟨3, 4, 0x80, 0x8f⟩
  else if 0xf1 ≤ b ∧ b ≤ 0xf3 then some ⟨3, b - 0xf0, 0x80, 0xbf⟩
  else none

def replacementChar : Char := Char.ofNat 0xfffd

/-- Takes in a first byte: the characters that are complete, and the one that has begun. -/
def beginChar (b : Nat) : List Char × Option Started :=
  match started? b with
  | none => ([replacementChar], none)
  | some s => if s.missing = 0 then ([Char.ofNat s.bits], none) else ([], some s)

/-- Takes in a byte. One that cannot go on with the character that has begun begins anew. -/
def takeByte (b : Nat) : Option Started → List Char × Option Started
  | none => beginChar b
  | some s =>
    if s.least ≤ b ∧ b ≤ s.greatest then
      let bits := 0x40 * s.bits + (b - 0x80)
      if s.missing = 1 then ([Char.ofNat bits], none)
      else ([], some ⟨s.missing - 1, bits, 0x80, 0xbf⟩)
    else
      let (done, next) := beginChar b
      (replacementChar :: done, next)

/-- The text that bytes spell; a replacement character stands for each sequence that spells none. -/
def decodeLeniently (begun : Option Started) : List UInt8 → List Char
  | [] => if begun.isSome then [replacementChar] else []
  | b :: rest =>
    let (done, next) := takeByte b.toNat begun
    done ++ decodeLeniently next rest

/-- The text of a document, without the byte order mark it may begin with. -/
def documentText (bytes : List UInt8) : String :=
  match decodeLeniently none bytes with
  | c :: rest => String.ofList (if c.toNat = 0xfeff then rest else c :: rest)
  | [] => ""

/-- The value of a hexadecimal digit. -/
def hexValue? (c : Char) : Option Nat :=
  if '0' ≤ c ∧ c ≤ '9' then some (c.toNat - 0x30)
  else if 'a' ≤ c ∧ c ≤ 'f' then some (c.toNat - 0x57)
  else if 'A' ≤ c ∧ c ≤ 'F' then some (c.toNat - 0x37)
  else none

/-- The bytes of a text in which a percent sign and two hexadecimal digits stand for one byte. -/
def percentDecode : List Char → List UInt8
  | '%' :: a :: b :: rest =>
    match hexValue? a, hexValue? b with
    | some x, some y => UInt8.ofNat (16 * x + y) :: percentDecode rest
    | _, _ => utf8Bytes '%' ++ percentDecode (a :: b :: rest)
  | c :: rest => utf8Bytes c ++ percentDecode rest
  | [] => []

/-- A byte as a percent sign and two capital hexadecimal digits. -/
def percentEscape (b : UInt8) : List Char :=
  ['%', Char.ofNat (digit (b.toNat / 16)), Char.ofNat (digit (b.toNat % 16))]
where
  digit (n : Nat) : Nat := if n < 10 then 0x30 + n else 0x37 + n

/-- The text with the bytes of the characters that satisfy `p` escaped. -/
def percentEncode (p : Char → Bool) (s : List Char) : List Char :=
  s.flatMap fun c => if p c then (utf8Bytes c).flatMap percentEscape else [c]

end ReleaseInstaller.Text
