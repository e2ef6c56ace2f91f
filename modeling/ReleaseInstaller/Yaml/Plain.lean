import ReleaseInstaller.Text.Utf8

/-! What plain scalars mean where no type is given: nothing, a truth value, a number or their text. -/
namespace ReleaseInstaller.Yaml
open Text

inductive Plain where
  | null
  | truth (b : Bool)
  | integer (n : Int)
  | fraction
  | text
  deriving DecidableEq, Repr

def isNullWord (s : String) : Bool := ["~", "null", "Null", "NULL"].contains s

def truthWord? (s : String) : Option Bool :=
  if ["true", "True", "TRUE"].contains s then some true
  else if ["false", "False", "FALSE"].contains s then some false
  else none

/-- The text without a sign in front. -/
def dropSign : List Char → List Char
  | '+' :: s | '-' :: s => s
  | s => s

/-- More than one digit, the first of them zero. Such a text is no number. -/
def isPadded (s : List Char) : Bool :=
  match dropSign s with
  | '0' :: d :: rest => (d :: rest).all Char.isDigit
  | _ => false

/-- The number that digits spell in a base of at most sixteen. -/
def natOfDigits? (base : Nat) (s : List Char) : Option Nat :=
  if s.isEmpty then none
  else s.foldlM (fun n c => ((hexValue? c).filter (· < base)).map (base * n + ·)) 0

/-- A number without sign: decimal, or in a base that two letters announce. -/
def natural? : List Char → Option Nat
  | '0' :: 'x' :: s => natOfDigits? 16 s
  | '0' :: 'o' :: s => natOfDigits? 8 s
  | '0' :: 'b' :: s => natOfDigits? 2 s
  | s => if isPadded s then none else natOfDigits? 10 s

def integer? : List Char → Option Int
  | '-' :: s => (natural? s).map fun n => -(n : Int)
  | '+' :: s | s => (natural? s).map fun n => (n : Int)

/-- An exponent, which may be missing; nothing may follow it. -/
def exponent? : List Char → Option Int
  | [] => some 0
  | e :: s =>
    if e = 'e' ∨ e = 'E' then
      match s with
      | '-' :: s => (natOfDigits? 10 s).map fun n => -(n : Int)
      | '+' :: s | s => (natOfDigits? 10 s).map fun n => (n : Int)
    else none

/-- The coefficient and the exponent of a decimal number without sign. A digit has to stand on one side
of the point. -/
def decimal? (s : List Char) : Option (Nat × Int) := do
  let whole := s.takeWhile Char.isDigit
  let s := s.drop whole.length
  let (fraction, s) :=
    match s with
    | '.' :: s => (s.takeWhile Char.isDigit, s.dropWhile Char.isDigit)
    | s => ([], s)
  let coefficient ← natOfDigits? 10 (whole ++ fraction)
  let exponent ← exponent? s
  return (coefficient, exponent - fraction.length)

/-- The number `m * 10 ^ e` rounds to a double of finite size. -/
def isFinite (m : Nat) (e : Int) : Bool :=
  let magnitude := (Nat.toDigits 10 m).length + e
  if m = 0 ∨ magnitude ≤ 308 then true
  else if 310 ≤ magnitude then false
  else m * Nat.pow 10 e.toNat < 18014398509481983 * Nat.pow 2 970 * Nat.pow 10 (-e).toNat

/-- A decimal number, or a word for infinity or for no number. -/
def isFraction (s : List Char) : Bool :=
  [".nan", ".NaN", ".NAN"].contains (String.ofList s) ||
    [".inf", ".Inf", ".INF"].contains (String.ofList (dropSign s)) ||
    (!isPadded s && (decimal? (dropSign s)).any fun (m, e) => isFinite m e)

/-- The integers of 128 bits, with a sign or without one. -/
def fits (n : Int) : Bool :=
  -170141183460469231731687303715884105728 ≤ n && n ≤ 340282366920938463463374607431768211455

/-- Wider integers are no integers. -/
def Plain.ofText (s : String) : Plain :=
  if s.isEmpty || isNullWord s then null
  else
    match truthWord? s, (integer? s.toList).filter fits with
    | some b, _ => truth b
    | none, some n => integer n
    | none, none => if isFraction s.toList then fraction else text

end ReleaseInstaller.Yaml
