import ReleaseInstaller.Json.Basic
import ReleaseInstaller.Text.Utf8

/-! Reading JSON text. Every step takes its value off the front of the text; the first argument
bounds the number of steps and is no limit for a text of half its size. -/
namespace ReleaseInstaller.Json
open Text

def isSpace (c : Char) : Bool := c == ' ' || c == '\n' || c == '\t' || c == '\r'

def skipSpace (s : List Char) : List Char := s.dropWhile isSpace

/-- A character of a string, or half of a pair that stands for a character. -/
inductive Unit16 where
  | char (c : Char)
  | high (n : Nat)
  | low (n : Nat)

/-- The unit that an escape of four hexadecimal digits names. -/
def Unit16.ofCode (n : Nat) : Unit16 :=
  if 0xd800 ≤ n ∧ n ≤ 0xdbff then .high n
  else if 0xdc00 ≤ n ∧ n ≤ 0xdfff then .low n
  else .char (Char.ofNat n)

/-- The text of a string, if each half of a pair has its other half. -/
def textOfUnits? : List Unit16 → Option (List Char)
  | [] => some []
  | .char c :: rest => (textOfUnits? rest).map (c :: ·)
  | .high a :: .low b :: rest =>
    (textOfUnits? rest).map (Char.ofNat (0x10000 + (a - 0xd800) * 0x400 + (b - 0xdc00)) :: ·)
  | _ => none

def fourHex? : List Char → Option (Nat × List Char)
  | a :: b :: c :: d :: rest => do
    let value := 16 * (16 * (16 * (← hexValue? a) + (← hexValue? b)) + (← hexValue? c))
    return (value + (← hexValue? d), rest)
  | _ => none

def simpleEscape? (c : Char) : Option Char :=
  match c with
  | '"' => some '"'
  | '\\' => some '\\'
  | '/' => some '/'
  | 'b' => some '\x08'
  | 'f' => some '\x0c'
  | 'n' => some '\n'
  | 'r' => some '\r'
  | 't' => some '\t'
  | _ => none

/-- The units of a string up to its closing quote, and the text after it. -/
def readUnits? (steps : Nat) (s : List Char) : Option (List Unit16 × List Char) :=
  match steps, s with
  | 0, _ => none
  | _, [] => none
  | n + 1, c :: rest =>
    if c = '"' then some ([], rest)
    else if c = '\\' then
      match rest with
      | 'u' :: digits => do
        let (code, rest) ← fourHex? digits
        let (units, rest) ← readUnits? n rest
        return (.ofCode code :: units, rest)
      | e :: rest => do
        let c ← simpleEscape? e
        let (units, rest) ← readUnits? n rest
        return (.char c :: units, rest)
      | [] => none
    else if c.toNat < 0x20 then none
    else do
      let (units, rest) ← readUnits? n rest
      return (.char c :: units, rest)

/-- The text of a string whose opening quote has been read: none inside if it has no text. -/
def readString? (s : List Char) : Option (Option String × List Char) := do
  let (units, rest) ← readUnits? (s.length + 1) s
  return ((textOfUnits? units).map String.ofList, rest)

def digitsValue (digits : List Char) : Nat :=
  digits.foldl (fun n c => 10 * n + (c.toNat - 0x30)) 0

/-- One or more digits. -/
def readDigits? (s : List Char) : Option (List Char × List Char) :=
  let digits := s.takeWhile Char.isDigit
  if digits.isEmpty then none else some (digits, s.dropWhile Char.isDigit)

/-- The exponent of a number, which may be missing. -/
def readExponent? (s : List Char) : Option (Option Int × List Char) :=
  match s with
  | e :: rest =>
    if e = 'e' ∨ e = 'E' then
      match rest with
      | '-' :: rest => (readDigits? rest).map fun (d, rest) => (some (-(digitsValue d : Int)), rest)
      | '+' :: rest => (readDigits? rest).map fun (d, rest) => (some (digitsValue d : Int), rest)
      | _ => (readDigits? rest).map fun (d, rest) => (some (digitsValue d : Int), rest)
    else some (none, s)
  | [] => some (none, [])

/-- The digits after the point, which may be missing. -/
def readFraction? (s : List Char) : Option (Option (List Char) × List Char) :=
  match s with
  | '.' :: rest => (readDigits? rest).map fun (d, rest) => (some d, rest)
  | _ => some (none, s)

/-- A number without its sign. No digit may follow a leading zero. Minus zero is no integer. -/
def readNumber? (negative : Bool) (s : List Char) : Option (Json × List Char) := do
  let (whole, rest) ← readDigits? s
  guard (whole.length = 1 || whole.head? ≠ some '0')
  let (fraction, rest) ← readFraction? rest
  let (exponent, rest) ← readExponent? rest
  let digits := digitsValue (whole ++ fraction.getD [])
  let coefficient : Int := if negative then -(digits : Int) else digits
  if fraction.isNone && exponent.isNone && !(negative && digits == 0) then
    return (integer coefficient, rest)
  else
    return (decimal coefficient (exponent.getD 0 - ((fraction.getD []).length : Int)), rest)

mutual

/-- The value at the front of the text. -/
def readValue? (steps : Nat) (s : List Char) : Option (Json × List Char) :=
  match steps with
  | 0 => none
  | n + 1 =>
    match skipSpace s with
    | 'n' :: 'u' :: 'l' :: 'l' :: rest => some (null, rest)
    | 't' :: 'r' :: 'u' :: 'e' :: rest => some (bool true, rest)
    | 'f' :: 'a' :: 'l' :: 's' :: 'e' :: rest => some (bool false, rest)
    | '"' :: rest => (readString? rest).map fun (s, rest) => ((s.map text).getD unreadable, rest)
    | '[' :: rest =>
      match skipSpace rest with
      | ']' :: rest => some (array [], rest)
      | rest => (readItems? n rest).map fun (items, rest) => (array items, rest)
    | '\x7b' :: rest =>
      match skipSpace rest with
      | '\x7d' :: rest => some (object [], rest)
      | rest => (readMembers? n rest).map fun (members, rest) =>
          match members.mapM fun m => m.1.map fun key => (key, m.2) with
          | some members => (object members, rest)
          | none => (unreadable, rest)
    | '-' :: rest => readNumber? true rest
    | rest => readNumber? false rest

/-- The items of an array, one at least, up to the closing bracket. -/
def readItems? (steps : Nat) (s : List Char) : Option (List Json × List Char) :=
  match steps with
  | 0 => none
  | n + 1 => do
    let (v, rest) ← readValue? n s
    match skipSpace rest with
    | ',' :: rest =>
      let (items, rest) ← readItems? n rest
      return (v :: items, rest)
    | ']' :: rest => return ([v], rest)
    | _ => none

/-- The members of an object, one at least, up to the closing brace. -/
def readMembers? (steps : Nat) (s : List Char) : Option (List (Option String × Json) × List Char) :=
  match steps with
  | 0 => none
  | n + 1 => do
    let '"' :: rest := skipSpace s | none
    let (key, rest) ← readString? rest
    let ':' :: rest := skipSpace rest | none
    let (v, rest) ← readValue? n rest
    match skipSpace rest with
    | ',' :: rest =>
      let (members, rest) ← readMembers? n rest
      return ((key, v) :: members, rest)
    | '\x7d' :: rest => return ([(key, v)], rest)
    | _ => none

end

/-- The document that the text holds; nothing but white space may stand around it. -/
def parse? (text : String) : Option Json := do
  let s := text.toList
  let (v, rest) ← readValue? (2 * s.length + 2) s
  guard (skipSpace rest).isEmpty
  return v

end ReleaseInstaller.Json
