import ReleaseInstaller.Text.Basic
import ReleaseInstaller.Yaml.Node
import ReleaseInstaller.Yaml.Plain

/-! Values of YAML documents, read with the type that is wanted: a scalar does not tell its type. -/
namespace ReleaseInstaller.Yaml
open Text

def nullTag : String := "tag:yaml.org,2002:null"

def truthTag : String := "tag:yaml.org,2002:bool"

def integerTag : String := "tag:yaml.org,2002:int"

def fractionTag : String := "tag:yaml.org,2002:float"

/-- An empty node or a word for null, which stands for an empty list or map too. -/
def Node.isNull : Node → Bool
  | .scalar _ .plain s => s.isEmpty || isNullWord s
  | _ => false

namespace Document

/-- A text, as it is written. -/
def text? (d : Document) (v : Node) : Option String :=
  match d.resolve v with
  | .scalar _ _ s => some s
  | _ => none

/-- A text, or nothing where a plain scalar says so. -/
def optionalText? (d : Document) (v : Node) : Option (Option String) :=
  match d.resolve v with
  | .scalar none .plain s => some (if s.isEmpty || isNullWord s then none else some s)
  | .scalar (some tag) .plain s =>
    if tag = nullTag then (if isNullWord s then some none else none) else some (some s)
  | .scalar _ _ s => some (some s)
  | _ => none

/-- A text that is not written like a value of another type, or a small integer in decimal digits. -/
def textOrInteger? (d : Document) (v : Node) : Option String :=
  match d.resolve v with
  | .scalar none .plain s =>
    match Plain.ofText s with
    | .integer n => smallDecimal? n
    | .text => some s
    | _ => none
  | .scalar none _ s => some s
  | .scalar (some tag) _ s =>
    if tag = integerTag then (integer? s.toList).bind smallDecimal?
    else if tag ∈ [nullTag, truthTag, fractionTag] || tag.startsWith "!" then none
    else some s
  | _ => none

def optionalTextOrInteger? (d : Document) (v : Node) : Option (Option String) := do
  match ← d.optionalText? v with
  | none => return none
  | some _ => return some (← d.textOrInteger? v)

/-- A truth value, in any case of letters. -/
def truth? (d : Document) (v : Node) : Option Bool :=
  match d.resolve v with
  | .scalar tag style s =>
    if style = .plain ∨ (style = .literal ∧ tag = some truthTag) then
      let word := s.toLower
      if word ∈ ["true", "yes", "y", "on"] then some true
      else if word ∈ ["false", "no", "n", "off"] then some false
      else none
    else none
  | _ => none

def items? (d : Document) (v : Node) : Option (List Node) :=
  match d.resolve v with
  | .sequence items => some items
  | v => if v.isNull then some [] else none

/-- The entries of a mapping. Its keys are scalars, and no two have the same text. -/
def entries? (d : Document) (v : Node) : Option (List (String × Node)) :=
  match d.resolve v with
  | .mapping entries => do
    let entries ← entries.mapM fun e => (d.text? e.1).map fun key => (key, e.2)
    guard (entries.map Prod.fst).Nodup
    return entries
  | v => if v.isNull then some [] else none

end Document

end ReleaseInstaller.Yaml
