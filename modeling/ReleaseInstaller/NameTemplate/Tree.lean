import ReleaseInstaller.NameTemplate.Node

/-! Building the tree of a template from its tokens, with the conditionals that are still open on a
stack. -/
namespace ReleaseInstaller.NameTemplate
open Text

/-- Why a template has no tree. -/
inductive Malformation where
  | unclosedAction
  | missingCondition
  | strayElse
  | secondElse
  | strayEnd
  | missingEnd
  deriving DecidableEq, Repr

def Malformation.message : Malformation → String
  | unclosedAction => "unclosed action"
  | missingCondition => "if without a condition"
  | strayElse => "else outside of an if"
  | secondElse => "if has two else branches"
  | strayEnd => "end without an if"
  | missingEnd => "if without an end"

/-- A conditional whose end has not come yet. -/
structure OpenBlock where
  condition : List Char
  /-- The offset of the action that opened it. -/
  start : Nat
  body : List Node
  otherwise : Option (List Node)

/-- Adds a node at the end of the branch that is being read. -/
def OpenBlock.push (b : OpenBlock) (n : Node) : OpenBlock :=
  match b.otherwise with
  | some nodes => { b with otherwise := some (nodes ++ [n]) }
  | none => { b with body := b.body ++ [n] }

/-- The nodes outside of every conditional, and the open conditionals, innermost first. -/
structure Building where
  nodes : List Node
  blocks : List OpenBlock

namespace Building

def push (s : Building) (n : Node) : Building :=
  match s.blocks with
  | [] => { s with nodes := s.nodes ++ [n] }
  | b :: outer => { s with blocks := b.push n :: outer }

/-- Takes in an action: its first word says whether it opens, divides or closes a conditional. -/
def action (s : Building) (text : List Char) (start stop : Nat) :
    Except (Malformation × Span) Building :=
  let span := Span.between start stop
  let (keyword, rest) := firstWord text
  let rest := trim rest
  if keyword = "if".toList then
    if rest = [] then .error (.missingCondition, span)
    else .ok { s with blocks := ⟨rest, start, [], none⟩ :: s.blocks }
  else if keyword = "else".toList then
    match s.blocks with
    | [] => .error (.strayElse, span)
    | b :: outer =>
      if b.otherwise.isSome then .error (.secondElse, span)
      else
        let first := if rest = [] then [] else [.unsupported text span]
        .ok { s with blocks := { b with otherwise := some first } :: outer }
  else if keyword = "end".toList then
    match s.blocks with
    | [] => .error (.strayEnd, span)
    | b :: outer =>
      .ok (push { s with blocks := outer }
        (.conditional b.condition b.body b.otherwise (.between b.start stop)))
  else .ok (s.push (.ofAction text span))

def step (s : Building) : Token → Except (Malformation × Span) Building
  | .text chars start => .ok (s.push (.literal chars ⟨start, byteLength chars⟩))
  | .action text start stop => s.action text start stop

/-- The finished tree of a template of `size` bytes. -/
def finish (s : Building) (size : Nat) : Except (Malformation × Span) (List Node) :=
  match s.blocks with
  | [] => .ok s.nodes
  | b :: _ => .error (.missingEnd, .between b.start size)

end Building

/-- The tree of a template of `size` bytes. -/
def Node.ofTokens (size : Nat) (tokens : List Token) :
    Except (Malformation × Span) (List Node) := do
  let s ← tokens.foldlM Building.step ⟨[], []⟩
  s.finish size

end ReleaseInstaller.NameTemplate
