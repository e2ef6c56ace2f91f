import ReleaseInstaller.NameTemplate.Tree
import ReleaseInstaller.Text.Basic
import ReleaseInstaller.Text.Quoted

/-! Name templates, the ways in which one can be refused, and the shell assignments that they become. Only
text that means nothing to the shell and references to known fields get through. -/
namespace ReleaseInstaller
open Text NameTemplate Shell

/-- A template for the name of a release file, as written and as a tree. -/
structure NameTemplate where
  source : String
  nodes : List Node
  deriving Repr

namespace NameTemplate

/-- What is wrong with a template. -/
inductive Fault where
  | malformed (reason : Malformation)
  /-- A conditional that is no ARM suffix. -/
  | conditional
  | unsafeChar (c : Char)
  | unknownField (name : List Char)
  | unsupportedAction (action : List Char)
  deriving DecidableEq, Repr

/-- A fault, and where in which template it lies. -/
structure Refusal where
  template : String
  fault : Fault
  span : Span
  deriving DecidableEq, Repr

def Refusal.message (r : Refusal) : String :=
  let subject := "name_template " ++ quoted r.template
  match r.fault with
  | .malformed reason => subject ++ " is malformed: " ++ reason.message
  | .conditional => subject ++ " contains unknown conditional or ARM format"
  | .unsafeChar c =>
    subject ++ " contains " ++ quoted (String.singleton c) ++
      ", which isn't safe in a shell assignment"
  | .unknownField name => subject ++ " refers to unknown field " ++ String.ofList name
  | .unsupportedAction action =>
    subject ++ " uses " ++ quoted (String.ofList action) ++
      ", which can't be translated to shell"

/-- The page where problems are reported. -/
def reportAdvice : String :=
  "Please file a bug at https://github.com/binfetch/binfetch/issues/new"

/-- What the user can do about it. -/
def Fault.advice? : Fault → Option String
  | .malformed _ => none
  | .conditional | .unsupportedAction _ => some reportAdvice
  | .unsafeChar _ =>
    some "archive and checksum names may only use letters, digits, and -_.+,@%:/="
  | .unknownField _ =>
    some "only .Os, .Arch, .Version, .Tag, .Binary and .ProjectName can be used in names"

/-- The remark beside the marked place. -/
def Fault.label? : Fault → Option String
  | .conditional => some "can't be translated to shell"
  | .unknownField _ => some "unknown field"
  | _ => none

def parse (template : String) : Except Refusal NameTemplate :=
  let size := byteLength template.toList
  match Segment.cut 0 template.toList with
  | .error start => .error ⟨template, .malformed .unclosedAction, .between start size⟩
  | .ok segments =>
    match Node.ofTokens size (Token.ofSegments segments) with
    | .error (reason, span) => .error ⟨template, .malformed reason, span⟩
    | .ok nodes => .ok ⟨template, nodes⟩

/-- Leaves out the ARM suffixes that follow a processor architecture with nothing else between. -/
def dropArmSuffixes (afterArch : Bool) : List Node → List Node
  | [] => []
  | n :: rest =>
    if afterArch && n.isArmSuffix then dropArmSuffixes afterArch rest
    else n :: dropArmSuffixes n.isArch rest

/-- The template without the ARM suffixes of its architectures, whose spelling at run time holds the
revision already. -/
def foldArmSuffixes (t : NameTemplate) : NameTemplate :=
  { t with nodes := dropArmSuffixes false t.nodes }

/-- Refuses the first conditional at the top of the tree. -/
def rejectConditionals (t : NameTemplate) : Except Refusal Unit :=
  match t.nodes.find? Node.isConditional with
  | some n => .error ⟨t.source, .conditional, n.span⟩
  | none => .ok ()

/-- The shell's spelling of a node, or why it has none. -/
def Node.toShell : Node → Except Fault (List Char)
  | literal text _ =>
    match text.find? fun c => !isWordChar c with
    | some c => .error (.unsafeChar c)
    | none => .ok text
  | field f _ => .ok f.reference
  | unknown name _ => .error (.unknownField name)
  | unsupported action _ => .error (.unsupportedAction action)
  | conditional .. | arm _ => .error .conditional

/-- The nodes one after the other, or the first node that has no spelling. -/
def Node.allToShell : List Node → Except (Fault × Text.Span) (List Char)
  | [] => .ok []
  | n :: rest =>
    match n.toShell with
    | .error fault => .error (fault, n.span)
    | .ok word => (allToShell rest).map (word ++ ·)

/-- The expression that computes the name. -/
def toShell (t : NameTemplate) : Except Refusal String :=
  match Node.allToShell t.nodes with
  | .error (fault, span) => .error ⟨t.source, fault, span⟩
  | .ok expression => .ok (String.ofList expression)

/-- An assignment: the part up to the equals sign, and the expression after it. -/
structure Assignment where
  target : String
  expression : String
  deriving DecidableEq, Repr

def Assignment.line (a : Assignment) : String := a.target ++ a.expression

/-- Assigns the name that the template describes. -/
def assign (target template : String) : Except Refusal Assignment := do
  let t := (← parse template).foldArmSuffixes
  t.rejectConditionals
  return ⟨target, ← t.toShell⟩

/-- The assignment target for the name of the archive. -/
def archiveTarget : String := "NAME="

/-- The assignment target for the name of the list of checksums. -/
def checksumTarget : String := "CHECKSUM="

end NameTemplate

end ReleaseInstaller
