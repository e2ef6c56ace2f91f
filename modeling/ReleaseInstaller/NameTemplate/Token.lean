import ReleaseInstaller.Text.Basic

/-! A template in pieces: cut at its actions, and what is left of it after trim markers have cut into the
text and comments are gone. -/
namespace ReleaseInstaller.NameTemplate
open Text

/-- The text before the first two `mark`s in a row, and the text after them. -/
def splitAtPair? (mark : Char) : List Char → Option (List Char × List Char)
  | a :: b :: rest =>
    if a = mark ∧ b = mark then some ([], rest)
    else (splitAtPair? mark (b :: rest)).map fun p => (a :: p.1, p.2)
  | _ => none

theorem eq_of_splitAtPair? {mark : Char} {s before after : List Char}
    (h : splitAtPair? mark s = some (before, after)) : s = before ++ mark :: mark :: after := by
  fun_induction splitAtPair? mark s generalizing before with
  | case1 a b rest hab =>
    obtain ⟨rfl, rfl⟩ := Prod.mk.inj (Option.some.inj h)
    simp [hab.1, hab.2]
  | case2 a b rest _ ih =>
    obtain ⟨⟨u, v⟩, huv, he⟩ := Option.map_eq_some_iff.mp h
    obtain ⟨rfl, rfl⟩ := Prod.mk.inj he
    simpa using ih huv
  | case3 => simp at h

theorem length_of_splitAtPair? {mark : Char} {s before after : List Char}
    (h : splitAtPair? mark s = some (before, after)) :
    before.length + after.length + 2 = s.length := by
  rw [eq_of_splitAtPair? h]
  simp
  omega

/-- The inside of the braces of an action, read for what it says about the text around it. -/
structure Action where
  /-- What the action does, without trim markers and the white space around it. -/
  text : List Char
  /-- The offset of its opening braces. -/
  start : Nat
  /-- The offset just past its closing braces. -/
  stop : Nat
  /-- White space at the end of the text before it is to go. -/
  trimsBefore : Bool
  /-- White space at the start of the text after it is to go. -/
  trimsAfter : Bool
  deriving DecidableEq, Repr

/-- The body after the trim marker at its start: a minus sign before white space. -/
def afterMarker? : List Char → Option (List Char)
  | '-' :: c :: rest => if isAsciiBlank c then some (c :: rest) else none
  | _ => none

/-- The body before the trim marker at its end. -/
def beforeMarker? (body : List Char) : Option (List Char) :=
  (afterMarker? body.reverse).map List.reverse

/-- Reads the text between the braces that open at `start`. -/
def Action.ofBody (body : List Char) (start : Nat) : Action :=
  let inner := (afterMarker? body).getD body
  { text := trim ((beforeMarker? inner).getD inner)
    start := start
    stop := start + 4 + byteLength body
    trimsBefore := (afterMarker? body).isSome
    trimsAfter := (beforeMarker? inner).isSome }

/-- The action is a remark and prints nothing. -/
def Action.isComment (a : Action) : Bool :=
  ['/', '*'].isPrefixOf a.text && ['*', '/'].isSuffixOf a.text

inductive Segment where
  | text (chars : List Char) (start : Nat)
  | action (action : Action)
  deriving DecidableEq, Repr

/-- Cuts the rest of a template, which begins at `start`. Fails with the offset of an action that
nothing closes. -/
def Segment.cut (start : Nat) (s : List Char) : Except Nat (List Segment) :=
  match _h : splitAtPair? '\x7b' s with
  | none => .ok [.text s start]
  | some (before, inside) =>
    let opening := start + byteLength before
    match _h' : splitAtPair? '\x7d' inside with
    | none => .error opening
    | some (body, rest) =>
      let action := Action.ofBody body opening
      match cut action.stop rest with
      | .error e => .error e
      | .ok segments => .ok (.text before start :: .action action :: segments)
termination_by s.length
decreasing_by
  have := length_of_splitAtPair? _h
  have := length_of_splitAtPair? _h'
  omega

/-! What is left after trim markers and comments. -/

inductive Token where
  | text (chars : List Char) (start : Nat)
  | action (text : List Char) (start stop : Nat)
  deriving DecidableEq, Repr

namespace Token

/-- The text as a token, unless nothing of it is left; `trimmed` cuts white space off its start. -/
def ofText (chars : List Char) (start : Nat) (trimmed : Bool) : List Token :=
  let kept := if trimmed then trimStart chars else chars
  if kept.isEmpty then [] else [.text kept (start + (byteLength chars - byteLength kept))]

/-- Cuts white space off the end of the latest token, if that is text; the list has it first. -/
def trimLatest : List Token → List Token
  | .text chars start :: earlier =>
    if (trimEnd chars).isEmpty then earlier else .text (trimEnd chars) start :: earlier
  | tokens => tokens

/-- The tokens read so far, the latest first, and whether the next text is to be trimmed. -/
structure Reading where
  tokens : List Token
  trimsNext : Bool

def Reading.step (r : Reading) : Segment → Reading
  | .text chars start => { r with tokens := ofText chars start r.trimsNext ++ r.tokens }
  | .action a =>
    let tokens := if a.trimsBefore then trimLatest r.tokens else r.tokens
    { tokens := if a.isComment then tokens else .action a.text a.start a.stop :: tokens
      trimsNext := a.trimsAfter }

def ofSegments (segments : List Segment) : List Token :=
  (segments.foldl Reading.step ⟨[], false⟩).tokens.reverse

end Token

end ReleaseInstaller.NameTemplate
