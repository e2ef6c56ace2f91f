import ReleaseInstaller.Diff.Edit

/-! Edits moved together. Each deletion and then each insertion goes up as far as it can and down again:
it passes edits of the other kind, joins with those of its own, and an insertion also passes kept items
that it ends with. The starts of edits that others pass stay as they are. -/
namespace ReleaseInstaller.Diff

variable {α : Type} [BEq α] (old new : Array α)

/-- An edit on the move, the edits before it from the nearest on, and those after it. -/
structure Place where
  before : List Edit
  here : Edit
  after : List Edit

/-- Kept items after an edit: they join those that already follow. -/
def keepAfter (i j n : Nat) : List Edit → List Edit
  | e :: rest =>
    if e.kind = .keep then ⟨.keep, e.oldStart - n, e.newStart - n, e.length + n⟩ :: rest
    else ⟨.keep, i, j, n⟩ :: e :: rest
  | [] => [⟨.keep, i, j, n⟩]

/-- Kept items before an edit: they join those that already precede. -/
def keepBefore (i j n : Nat) : List Edit → List Edit
  | e :: rest =>
    if e.kind = .keep then { e with length := e.length + n } :: rest
    else ⟨.keep, i, j, n⟩ :: e :: rest
  | [] => [⟨.keep, i, j, n⟩]

def moveUp (steps : Nat) (p : Place) : Place :=
  match steps, p with
  | 0, p => p
  | _, ⟨[], here, after⟩ => ⟨[], here, after⟩
  | k + 1, ⟨e :: before, here, after⟩ =>
    if e.kind = .keep then
      let n :=
        if here.kind = .insert then
          commonTail old new (min e.length here.length) (e.oldStart + e.length)
            (here.newStart + here.length)
        else 0
      if n = 0 then
        if e.length = 0 then moveUp k ⟨before, here, after⟩ else ⟨e :: before, here, after⟩
      else
        let after :=
          keepAfter (e.oldStart + e.length - n) (here.newStart + here.length - n) n after
        let here := { here with oldStart := here.oldStart - n, newStart := here.newStart - n }
        let before :=
          if e.length = n then before else { e with length := e.length - n } :: before
        moveUp k ⟨before, here, after⟩
    else if e.kind = here.kind then
      moveUp k ⟨before, { e with length := e.length + here.length }, after⟩
    else moveUp k ⟨before, here, e :: after⟩

def moveDown (steps : Nat) (p : Place) : Place :=
  match steps, p with
  | 0, p => p
  | _, ⟨before, here, []⟩ => ⟨before, here, []⟩
  | k + 1, ⟨before, here, e :: after⟩ =>
    if e.kind = .keep then
      let n :=
        if here.kind = .insert then
          commonHead old new (min e.length here.length) e.oldStart here.newStart
        else 0
      if n = 0 then
        if e.length = 0 then moveDown k ⟨before, here, after⟩ else ⟨before, here, e :: after⟩
      else
        let before := keepBefore e.oldStart here.newStart n before
        let here := { here with oldStart := here.oldStart + n, newStart := here.newStart + n }
        let after :=
          if e.length = n then after
          else ⟨.keep, e.oldStart + n, e.newStart + n, e.length - n⟩ :: after
        moveDown k ⟨before, here, after⟩
    else if e.kind = here.kind then
      moveDown k ⟨before, { here with length := here.length + e.length }, after⟩
    else moveDown k ⟨e :: before, here, after⟩

/-- Moves all edits of a kind, given the edits already passed, from the nearest on. -/
def compactKind (kind : Kind) (reach steps : Nat) (before after : List Edit) : List Edit :=
  match steps, after with
  | 0, after => before.reverse ++ after
  | _, [] => before.reverse
  | k + 1, e :: after =>
    if e.kind = kind then
      let p := moveDown old new reach (moveUp old new reach ⟨before, e, after⟩)
      compactKind kind reach k (p.here :: p.before) p.after
    else compactKind kind reach k (e :: before) after

def compact (script : List Edit) : List Edit :=
  let reach := old.size + new.size + 2 * script.length + 2
  let script := compactKind old new .delete reach reach [] script
  compactKind old new .insert reach reach [] script

end ReleaseInstaller.Diff
