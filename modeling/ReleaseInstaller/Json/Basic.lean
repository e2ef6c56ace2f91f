/-! JSON documents, and their text. Objects keep their members in the order in which they are written, also
when a key occurs twice. -/
namespace ReleaseInstaller

inductive Json where
  | null
  | bool (b : Bool)
  | integer (n : Int)
  /-- The number `coefficient * 10 ^ exponent`, written with a fraction or an exponent. -/
  | decimal (coefficient exponent : Int)
  | text (s : String)
  | array (items : List Json)
  | object (members : List (String × Json))
  /-- A value that can be passed over and not read: a string with half of a surrogate pair, or an
  object with such a key. -/
  | unreadable
  deriving Repr, Inhabited

namespace Json

/-- The values that a record written as an object or an array gives to its fields; none for other
documents, for a field given twice, and for more values than there are fields. -/
def record? (fields : List String) : Json → Option (String → Option Json)
  | object members =>
    if (members.filter fun m => fields.contains m.1).map Prod.fst |>.Nodup then
      some fun field => members.lookup field
    else none
  | array items =>
    if items.length ≤ fields.length then some fun field => (fields.zip items).lookup field
    else none
  | _ => none

def text? : Json → Option String
  | text s => some s
  | _ => none

def bool? : Json → Option Bool
  | bool b => some b
  | _ => none

def items? : Json → Option (List Json)
  | array items => some items
  | _ => none

def members? : Json → Option (List (String × Json))
  | object members => some members
  | _ => none

/-! The text is laid out over lines, with two spaces for each level. -/

def hexDigit (n : Nat) : Char := Char.ofNat (if n < 10 then 0x30 + n else 0x57 + n)

/-- A character as it stands in a JSON string. -/
def escape (c : Char) : List Char :=
  match c with
  | '"' => ['\\', '"']
  | '\\' => ['\\', '\\']
  | '\n' => ['\\', 'n']
  | '\r' => ['\\', 'r']
  | '\t' => ['\\', 't']
  | '\x08' => ['\\', 'b']
  | '\x0c' => ['\\', 'f']
  | c =>
    if c.toNat < 0x20 then
      ['\\', 'u', '0', '0', hexDigit (c.toNat / 16), hexDigit (c.toNat % 16)]
    else [c]

def textForm (s : String) : String := String.ofList ('"' :: s.toList.flatMap escape ++ ['"'])

/-- A line break, and the white space of a level. -/
def lineBreak (level : Nat) : String := "\n" ++ "".pushn ' ' (2 * level)

mutual

/-- A value whose lines after the first stand at the given level. -/
def layout (level : Nat) : Json → String
  | null => "null"
  | bool b => if b then "true" else "false"
  | integer n => toString n
  | decimal coefficient exponent => toString coefficient ++ "e" ++ toString exponent
  | text s => textForm s
  | array [] => "[]"
  | array (v :: rest) =>
    "[" ++ lineBreak (level + 1) ++ layout (level + 1) v ++ layoutItems (level + 1) rest ++
      lineBreak level ++ "]"
  | object [] => "\x7b\x7d"
  | object ((key, v) :: rest) =>
    "\x7b" ++ lineBreak (level + 1) ++ textForm key ++ ": " ++ layout (level + 1) v ++
      layoutMembers (level + 1) rest ++ lineBreak level ++ "\x7d"
  | unreadable => "null"

def layoutItems (level : Nat) : List Json → String
  | [] => ""
  | v :: rest => "," ++ lineBreak level ++ layout level v ++ layoutItems level rest

def layoutMembers (level : Nat) : List (String × Json) → String
  | [] => ""
  | (key, v) :: rest =>
    "," ++ lineBreak level ++ textForm key ++ ": " ++ layout level v ++ layoutMembers level rest

end

def pretty (v : Json) : String := layout 0 v

end Json

end ReleaseInstaller
