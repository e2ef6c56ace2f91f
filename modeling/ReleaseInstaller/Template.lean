import ReleaseInstaller.Text.Quoted

/-! Templates of texts, with values, conditions and loops in them. A value that is not there cannot be
used at all: it can neither be written nor be a condition, and there is no going through it. -/
namespace ReleaseInstaller.Template
open Text

inductive Value where
  | nothing
  | truth (b : Bool)
  | text (s : String)
  | list (items : List Value)
  | record (members : List (String × Value))
  deriving Repr, Inhabited

/-- What names stand for. The names of loops come first, the innermost one before the others. -/
abbrev Scope := List (String × Value)

namespace Value

def member? (key : String) : Value → Option Value
  | record members => members.lookup key
  | _ => none

/-- The value that a path of members leads to. -/
def at? (v : Value) : List String → Option Value
  | [] => some v
  | key :: path => (v.member? key).bind (at? · path)

/-- Whether a value meets a condition. -/
def holds : Value → Bool
  | nothing => false
  | truth b => b
  | text s => !s.isEmpty
  | list items => !items.isEmpty
  | record members => !members.isEmpty

/-- The values that a loop goes through. Only a list has some. -/
def items? : Value → Option (List Value)
  | list items => some items
  | _ => none

mutual

/-- A value as it is written inside another one. -/
def inspect : Value → String
  | nothing => "none"
  | truth b => toString b
  | text s => quoted s
  | list items => "[" ++ ", ".intercalate (inspectAll items) ++ "]"
  | record members => "\x7b" ++ ", ".intercalate (inspectMembers members) ++ "\x7d"

def inspectAll : List Value → List String
  | [] => []
  | v :: rest => v.inspect :: inspectAll rest

def inspectMembers : List (String × Value) → List String
  | [] => []
  | (key, v) :: rest => (quoted key ++ ": " ++ v.inspect) :: inspectMembers rest

end

/-- A value as it is written into a text. -/
def written : Value → String
  | text s => s
  | v => v.inspect

end Value

/-- A part of a template. -/
inductive Part where
  | fixed (text : String)
  | value (path : List String)
  /-- Gives up. -/
  | refusal (message : String)
  | choice (path : List String) (filled blank : List Part)
  /-- The body once for each item, for which the name stands in it. -/
  | each (name : String) (path : List String) (body : List Part)
  deriving Repr

/-- What can go wrong with a template. -/
inductive Fault where
  | missing
  | refused (message : String)
  deriving DecidableEq, Repr

/-- The value at a path, which has to be there. -/
def need {α : Type} : Option α → Except Fault α
  | some v => .ok v
  | none => .error .missing

def find? (scope : Scope) (path : List String) : Option Value := (Value.record scope).at? path

mutual

/-- The text of a part. -/
def Part.render (scope : Scope) : Part → Except Fault (List Char)
  | .fixed s => .ok s.toList
  | .value path => do
    let v ← need (find? scope path)
    return v.written.toList
  | .refusal message => .error (.refused message)
  | .choice path filled blank => do
    let v ← need (find? scope path)
    if v.holds then render scope filled else render scope blank
  | .each name path body => do
    let v ← need (find? scope path)
    let items ← need v.items?
    let texts ← items.mapM fun item => render ((name, item) :: scope) body
    return texts.flatten

/-- The texts of the parts, one after the other. -/
def render (scope : Scope) : List Part → Except Fault (List Char)
  | [] => .ok []
  | p :: rest => do
    let text ← p.render scope
    return text ++ (← render scope rest)

end

end ReleaseInstaller.Template
