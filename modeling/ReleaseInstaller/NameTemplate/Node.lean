import ReleaseInstaller.NameTemplate.Token

/-! The tree of a template: text, the fields that it may refer to, and the branches of its conditionals. -/
namespace ReleaseInstaller.NameTemplate
open Text

inductive Field where
  | os | arch | version | tag | binary | projectName
  deriving DecidableEq, Repr

namespace Field

/-- The field with the given name in a template. -/
def ofName? (name : String) : Option Field :=
  if name = "Os" ∨ name = "OS" then some os
  else if name = "Arch" then some arch
  else if name = "Version" then some version
  else if name = "Tag" then some tag
  else if name = "Binary" then some binary
  else if name = "ProjectName" then some projectName
  else none

/-- The shell variable in which the installer keeps the value. -/
def variableName : Field → String
  | os => "OS"
  | arch => "ARCH"
  | version => "VERSION"
  | tag => "TAG"
  | binary => "BINARY"
  | projectName => "PROJECT_NAME"

/-- The expansion of that variable, as the shell reads it. -/
def reference (f : Field) : List Char :=
  ['$', '\x7b'] ++ f.variableName.toList ++ ['\x7d']

end Field

inductive Node where
  /-- Text that stands for itself. -/
  | literal (text : List Char) (span : Span)
  | field (field : Field) (span : Span)
  /-- The revision of an ARM processor, which is empty on every other platform. -/
  | arm (span : Span)
  | unknown (name : List Char) (span : Span)
  | conditional (condition : List Char) (body : List Node) (otherwise : Option (List Node))
      (span : Span)
  | unsupported (action : List Char) (span : Span)
  deriving Repr

namespace Node

def span : Node → Span
  | literal _ s | field _ s | arm s | unknown _ s | conditional _ _ _ s | unsupported _ s => s

def isArch : Node → Bool
  | field .arch _ => true
  | _ => false

/-- The conditional adds the ARM revision and nothing else: bare, or after a `v`. -/
def isArmSuffix : Node → Bool
  | conditional condition [arm _] none _ => isArmCondition condition
  | conditional condition [literal text _, arm _] none _ =>
    isArmCondition condition && text == ['v']
  | _ => false
where
  isArmCondition (condition : List Char) : Bool :=
    condition == ".Arm".toList || condition == "Arm".toList

/-- The node needs a decision when the name is computed. -/
def isConditional : Node → Bool
  | conditional .. | arm _ => true
  | _ => false

def isNameChar (c : Char) : Bool := c.isAlphanum || c == '_' || c == '.'

/-- The node for a reference to a field. -/
def ofFieldName (name : List Char) (span : Span) : Node :=
  if name = "Arm".toList then .arm span
  else match Field.ofName? (String.ofList name) with
    | some f => .field f span
    | none => .unknown name span

/-- The node for an action that is no part of a conditional: a field, whose dot may be left out when
its name begins with a capital, or something else. -/
def ofAction (text : List Char) (span : Span) : Node :=
  match text with
  | '.' :: name =>
    if name ≠ [] ∧ name.all isNameChar then ofFieldName name span else .unsupported text span
  | c :: rest =>
    if c.isUpper ∧ rest.all isNameChar then ofFieldName text span else .unsupported text span
  | [] => .unsupported text span

end Node

end ReleaseInstaller.NameTemplate
