/-! Edit scripts: how one sequence turns into another, as runs of items that are kept, deleted or
inserted. -/
namespace ReleaseInstaller.Diff

section Edit

inductive Kind where
  | keep | delete | insert
  deriving DecidableEq, Repr

/-- A run of items. It has a place in both sequences, also where it takes up none in one of them. -/
structure Edit where
  kind : Kind
  oldStart : Nat
  newStart : Nat
  length : Nat
  deriving DecidableEq, Repr

/-- A stretch of the old sequence and one of the new. -/
structure Region where
  oldStart : Nat
  oldStop : Nat
  newStart : Nat
  newStop : Nat
  deriving DecidableEq, Repr

namespace Region

def oldLength (r : Region) : Nat := r.oldStop - r.oldStart

def newLength (r : Region) : Nat := r.newStop - r.newStart

def shorter (r : Region) : Nat := min r.oldLength r.newLength

end Region

variable {α : Type} [BEq α] (old new : Array α)

/-- The number of equal items, `limit` at most, from two places on. -/
def commonHead (limit i j : Nat) : Nat :=
  match limit with
  | 0 => 0
  | n + 1 => if old[i]? == new[j]? then 1 + commonHead n (i + 1) (j + 1) else 0

/-- The number of equal items, `limit` at most, before two places. -/
def commonTail (limit i j : Nat) : Nat :=
  match limit with
  | 0 => 0
  | n + 1 => if old[i - 1]? == new[j - 1]? then 1 + commonTail n (i - 1) (j - 1) else 0

end Edit

/-! Short edit scripts. Paths with more and more edits are followed from both ends until two of them
meet; the script then falls into two parts at the meeting point. -/

section Shortest

/-- How far the paths with `d` edits get, measured in the old sequence. They lie on the diagonals
`d, d - 2, …, -d`, in this order. -/
abbrev Frontier := Array Nat

/-- Where the path number `i` with `d` edits begins its equal items: one step on from one of the two
neighbouring paths with an edit less. -/
def stepFrom (d : Nat) (previous : Frontier) (i : Nat) : Nat :=
  let deleted := previous.getD i 0
  let inserted := previous.getD (i - 1) 0
  if d = 0 then 0
  else if i = d ∨ (i ≠ 0 ∧ deleted < inserted) then inserted
  else deleted + 1

/-- The place in the new sequence of the path number `i` that has got to `x` in the old one. -/
def placeInNew (d i x : Nat) : Nat := x + 2 * i - d

/-- A path that has reached `x` on its diagonal meets the one from the other end, whose paths have `e`
edits. The lengths of the sequences are `n` and `m`. -/
def meets (n m : Nat) (e : Int) (other : Frontier) (d i x : Nat) : Bool :=
  let t := e - ((n : Int) - m) + d - 2 * i
  0 ≤ t && t ≤ 2 * e && n ≤ x + other.getD (t.toNat / 2) 0

/-- A meeting of two paths: where the equal items begin, and their number. -/
structure Meeting where
  x : Nat
  y : Nat
  length : Nat

/-- The next frontier, unless one of its paths meets one from the other end. -/
def advance (slide : Nat → Nat → Nat) (hit : Nat → Nat → Bool) (d : Nat) (previous : Frontier)
    (remaining : Nat) (row : Frontier) : Except Meeting Frontier :=
  match remaining with
  | 0 => .ok row
  | k + 1 =>
    let i := row.size
    let x := stepFrom d previous i
    let y := placeInNew d i x
    let length := slide x y
    if hit i (x + length) then .error ⟨x, y, length⟩
    else advance slide hit d previous k (row.push (x + length))

variable {α : Type} [BEq α] (old new : Array α)

/-- Where the paths from both ends of a region meet. They need not be followed for more than half of
the edits. -/
def meeting? (r : Region) (steps d : Nat) (ahead back : Frontier) : Option (Nat × Nat) :=
  let n := r.oldLength
  let m := r.newLength
  let odd := (n + m) % 2 == 1
  match steps with
  | 0 => none
  | k + 1 =>
    let slideAhead (x y : Nat) : Nat :=
      commonHead old new (min (n - x) (m - y)) (r.oldStart + x) (r.newStart + y)
    let slideBack (x y : Nat) : Nat :=
      commonTail old new (min (n - x) (m - y)) (r.oldStop - x) (r.newStop - y)
    match advance slideAhead (fun i x => odd && meets n m (d - 1) back d i x) d ahead (d + 1) #[] with
    | .error hit => some (r.oldStart + hit.x, r.newStart + hit.y)
    | .ok ahead =>
      match advance slideBack (fun i x => !odd && meets n m d ahead d i x) d back (d + 1) #[] with
      | .error hit => some (r.oldStop - hit.x - hit.length, r.newStop - hit.y - hit.length)
      | .ok back => meeting? r k (d + 1) ahead back

/-- An edit script for a region. -/
def shortest (steps : Nat) (r : Region) : List Edit :=
  match steps with
  | 0 => []
  | k + 1 =>
    let head := commonHead old new r.shorter r.oldStart r.newStart
    let s := { r with oldStart := r.oldStart + head, newStart := r.newStart + head }
    let tail := commonTail old new s.shorter s.oldStop s.newStop
    let s := { s with oldStop := s.oldStop - tail, newStop := s.newStop - tail }
    let deleted : Edit := ⟨.delete, s.oldStart, s.newStart, s.oldLength⟩
    let inserted : Edit := ⟨.insert, s.oldStart, s.newStart, s.newLength⟩
    let inner :=
      if s.oldLength = 0 ∧ s.newLength = 0 then []
      else if s.newLength = 0 then [deleted]
      else if s.oldLength = 0 then [inserted]
      else
        match meeting? old new s ((s.oldLength + s.newLength + 1) / 2 + 1) 0 #[] #[] with
        | some (i, j) =>
          shortest k { s with oldStop := i, newStop := j } ++
            shortest k { s with oldStart := i, newStart := j }
        | none => [deleted, inserted]
    let kept (i j length : Nat) : List Edit :=
      if length = 0 then [] else [⟨.keep, i, j, length⟩]
    kept r.oldStart r.newStart head ++ inner ++ kept s.oldStop s.newStop tail

/-- The number of steps that suffices for a region. -/
def Region.steps (r : Region) : Nat := r.oldLength + r.newLength + 1

end Shortest

/-! Edit scripts that follow the items which are unique on both sides: between two of those, as they
match, the sequences are compared on their own. -/

section Anchored

variable {α : Type} [BEq α]

/-- The places of the items that occur once. -/
def uniquePlaces (items : Array α) : Array Nat :=
  (Array.range items.size).filter fun i =>
    match items[i]? with
    | some x => items.count x == 1
    | none => false

/-- The matches among unique items, as pairs of places. -/
def anchors (old new : Array α) : List (Nat × Nat) :=
  let oldPlaces := uniquePlaces old
  let newPlaces := uniquePlaces new
  let r : Region := ⟨0, oldPlaces.size, 0, newPlaces.size⟩
  let items (places : Array Nat) (all : Array α) := places.map fun i => all[i]?
  let script := shortest (items oldPlaces old) (items newPlaces new) r.steps r
  (script.filter (·.kind = .keep)).flatMap fun e =>
    (List.range e.length).map fun k =>
      (oldPlaces.getD (e.oldStart + k) 0, newPlaces.getD (e.newStart + k) 0)

variable (old new : Array α)

/-- The script up to each anchor, and after the last one. From where the last one left off, equal items
are kept first. -/
def throughAnchors (i j : Nat) : List (Nat × Nat) → List Edit
  | [] =>
    let r : Region := ⟨i, old.size, j, new.size⟩
    shortest old new r.steps r
  | (a, b) :: rest =>
    let n := commonHead old new (min (a - i) (b - j)) i j
    let r : Region := ⟨i + n, a, j + n, b⟩
    (if n = 0 then [] else [⟨.keep, i, j, n⟩]) ++ shortest old new r.steps r ++
      throughAnchors a b rest

def anchored : List Edit := throughAnchors old new 0 0 (anchors old new)

end Anchored

end ReleaseInstaller.Diff
