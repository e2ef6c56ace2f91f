import Mathlib.Data.List.Infix
import ReleaseInstaller.NameTemplate.Basic

/-! Where a template is cut: an action runs from the first two opening braces to the first two closing
braces behind them. -/
namespace ReleaseInstaller.NameTemplate
open Text

variable {mark : Char} {s before after body first : List Char}

/-- Two marks that come right behind the text are the first two in a row. -/
def IsBeforePair (mark : Char) (before : List Char) : Prop := ¬ [mark, mark] <:+: before ++ [mark]

instance (mark : Char) (before : List Char) : Decidable (IsBeforePair mark before) :=
  inferInstanceAs (Decidable (¬ _))

theorem isBeforePair_nil : IsBeforePair mark [] := by
  intro h
  exact absurd h.length_le (by simp)

theorem isBeforePair_cons {a b : Char} {rest : List Char} (hs : b :: rest = s ++ mark :: after) :
    IsBeforePair mark (a :: s) ↔ ¬ (a = mark ∧ b = mark) ∧ IsBeforePair mark s := by
  have hhead : ∃ tail, s ++ [mark] = b :: tail := by
    cases s with
    | nil => exact ⟨[], by rw [(List.cons.inj hs).1, List.nil_append]⟩
    | cons c s => exact ⟨s ++ [mark], by rw [(List.cons.inj hs).1, List.cons_append]⟩
  obtain ⟨tail, htail⟩ := hhead
  rw [IsBeforePair, IsBeforePair, List.cons_append, List.infix_cons_iff, htail]
  simp only [List.cons_prefix_cons, List.nil_prefix, and_true, not_or, eq_comm]

theorem splitAtPair?_of_isBeforePair (h : IsBeforePair mark before) (after : List Char) :
    splitAtPair? mark (before ++ mark :: mark :: after) = some (before, after) := by
  induction before with
  | nil => rw [List.nil_append, splitAtPair?, if_pos ⟨rfl, rfl⟩]
  | cons a before ih =>
    obtain ⟨b, rest, hrest⟩ : ∃ b rest, before ++ mark :: mark :: after = b :: rest :=
      List.exists_cons_of_ne_nil (by simp)
    obtain ⟨hab, hbefore⟩ := (isBeforePair_cons hrest.symm).mp h
    rw [List.cons_append, hrest, splitAtPair?, if_neg hab, ← hrest, ih hbefore]
    rfl

/-- The text is cut at the first two marks in a row. -/
theorem splitAtPair?_eq_some_iff : splitAtPair? mark s = some (before, after) ↔
    s = before ++ mark :: mark :: after ∧ IsBeforePair mark before := by
  constructor
  · intro h
    refine ⟨eq_of_splitAtPair? h, ?_⟩
    fun_induction splitAtPair? mark s generalizing before with
    | case1 a b rest hab =>
      obtain ⟨rfl, -⟩ := Prod.mk.inj (Option.some.inj h)
      exact isBeforePair_nil
    | case2 a b rest hab ih =>
      obtain ⟨⟨u, v⟩, huv, he⟩ := Option.map_eq_some_iff.mp h
      obtain ⟨rfl, rfl⟩ := Prod.mk.inj he
      exact (isBeforePair_cons (eq_of_splitAtPair? huv)).mpr ⟨hab, ih huv⟩
    | case3 => contradiction
  · rintro ⟨rfl, h⟩
    exact splitAtPair?_of_isBeforePair h after

theorem splitAtPair?_eq_none_iff : splitAtPair? mark s = none ↔ ¬ [mark, mark] <:+: s := by
  constructor
  · intro h
    fun_induction splitAtPair? mark s with
    | case1 => cases h
    | case2 a b rest hab ih =>
      rw [List.infix_cons_iff, not_or]
      refine ⟨fun hp => hab ?_, ih (Option.map_eq_none_iff.mp h)⟩
      simp only [List.cons_prefix_cons, List.nil_prefix, and_true] at hp
      exact ⟨hp.1.symm, hp.2.symm⟩
    | case3 s hs =>
      intro hi
      obtain _ | ⟨a, _ | ⟨b, rest⟩⟩ := s
      · exact absurd hi.length_le (by simp)
      · exact absurd hi.length_le (by simp)
      · exact hs a b rest rfl
  · intro h
    cases hs : splitAtPair? mark s with
    | none => rfl
    | some p =>
      refine absurd ⟨p.1, p.2, ?_⟩ h
      rw [eq_of_splitAtPair? hs, List.append_assoc]
      rfl

/-- The inside of the braces of an action, and the text that comes after it. -/
structure Clause where
  body : List Char
  after : List Char
  deriving DecidableEq, Repr

/-- The text before the first action of a template, and the actions of the template. -/
inductive IsCut : List Char → List Char → List Clause → Prop
  | text {s : List Char} (h : ¬ ['\x7b', '\x7b'] <:+: s) : IsCut s s []
  | action {before body rest after : List Char} {clauses : List Clause}
      (hbefore : IsBeforePair '\x7b' before) (hbody : IsBeforePair '\x7d' body)
      (h : IsCut rest after clauses) :
      IsCut (before ++ '\x7b' :: '\x7b' :: (body ++ '\x7d' :: '\x7d' :: rest)) before
        (⟨body, after⟩ :: clauses)

theorem IsCut.cases_split {clauses : List Clause} (h : IsCut s first clauses) :
    (splitAtPair? '\x7b' s = none ∧ first = s ∧ clauses = []) ∨
      ∃ inside body rest after later, splitAtPair? '\x7b' s = some (first, inside) ∧
        splitAtPair? '\x7d' inside = some (body, rest) ∧ IsCut rest after later ∧
        clauses = ⟨body, after⟩ :: later := by
  cases h with
  | text h => exact .inl ⟨splitAtPair?_eq_none_iff.mpr h, rfl, rfl⟩
  | action hbefore hbody h =>
    exact .inr ⟨_, _, _, _, _, splitAtPair?_of_isBeforePair hbefore _,
      splitAtPair?_of_isBeforePair hbody _, h, rfl⟩

/-- There is one way to cut a template. -/
theorem IsCut.unique {clauses clauses' : List Clause} {first' : List Char}
    (h : IsCut s first clauses) (h' : IsCut s first' clauses') :
    first' = first ∧ clauses' = clauses := by
  induction h generalizing first' clauses' with
  | text h =>
    have hnone := splitAtPair?_eq_none_iff.mpr h
    rcases h'.cases_split with ⟨-, rfl, rfl⟩ | ⟨_, _, _, _, _, hopen, -⟩
    · exact ⟨rfl, rfl⟩
    · rw [hnone] at hopen
      contradiction
  | @action before body rest after clauses hbefore hbody h ih =>
    have hfirst := splitAtPair?_of_isBeforePair hbefore (body ++ '\x7d' :: '\x7d' :: rest)
    rcases h'.cases_split with ⟨hnone, -, -⟩ |
      ⟨inside, body', rest', after', later, hopen, hclose, hcut, rfl⟩
    · rw [hfirst] at hnone
      contradiction
    · obtain ⟨rfl, rfl⟩ := Prod.mk.inj (Option.some.inj (hfirst.symm.trans hopen))
      have hinside := splitAtPair?_of_isBeforePair hbody rest
      obtain ⟨rfl, rfl⟩ := Prod.mk.inj (Option.some.inj (hinside.symm.trans hclose))
      obtain ⟨rfl, rfl⟩ := ih hcut
      exact ⟨rfl, rfl⟩

namespace Clause

/-- What the action does, without trim markers and the white space around it. -/
def text (c : Clause) : List Char := (Action.ofBody c.body 0).text

/-- The action is a remark. -/
def isComment (c : Clause) : Bool := (Action.ofBody c.body 0).isComment

/-- A minus sign right behind the opening braces, with white space behind it. -/
def OpensWithMarker (c : Clause) : Prop :=
  ∃ blank rest, c.body = '-' :: blank :: rest ∧ isAsciiBlank blank = true

/-- A minus sign right before the closing braces, with white space before it. -/
def ClosesWithMarker (c : Clause) : Prop :=
  ∃ rest blank, c.body = rest ++ [blank, '-'] ∧ isAsciiBlank blank = true

end Clause

theorem isSome_afterMarker?_iff : (afterMarker? body).isSome = true ↔
    ∃ blank rest, body = '-' :: blank :: rest ∧ isAsciiBlank blank = true := by
  unfold afterMarker?
  split
  · rename_i blank rest
    split <;> simp [*]
  · rename_i hshape
    constructor
    · intro h
      contradiction
    · rintro ⟨blank, rest, rfl, -⟩
      exact absurd rfl (hshape blank rest)

theorem isSome_beforeMarker?_iff : (beforeMarker? body).isSome = true ↔
    ∃ rest blank, body = rest ++ [blank, '-'] ∧ isAsciiBlank blank = true := by
  rw [beforeMarker?, Option.isSome_map, isSome_afterMarker?_iff]
  constructor
  · rintro ⟨blank, rest, hbody, hblank⟩
    exact ⟨rest.reverse, blank, by rw [← body.reverse_reverse, hbody]; simp, hblank⟩
  · rintro ⟨rest, blank, rfl, hblank⟩
    exact ⟨blank, rest.reverse, by simp, hblank⟩

/-- A marker at the start of a body is no part of one at its end. -/
theorem isSome_beforeMarker?_inner :
    (beforeMarker? ((afterMarker? body).getD body)).isSome = (beforeMarker? body).isSome := by
  cases h : afterMarker? body with
  | none => rfl
  | some inner =>
    have hbody : ∃ blank rest, inner = blank :: rest ∧ body = '-' :: inner := by
      unfold afterMarker? at h
      split at h
      · split at h
        · obtain rfl := Option.some.inj h
          exact ⟨_, _, rfl, rfl⟩
        · contradiction
      · contradiction
    obtain ⟨blank, rest, rfl, rfl⟩ := hbody
    rw [Option.getD_some, Bool.eq_iff_iff, isSome_beforeMarker?_iff, isSome_beforeMarker?_iff]
    constructor
    · rintro ⟨init, last, hinner, hlast⟩
      exact ⟨'-' :: init, last, by rw [hinner, List.cons_append], hlast⟩
    · rintro ⟨init, last, hinner, hlast⟩
      cases init with
      | nil =>
        obtain ⟨rfl, -⟩ := List.cons.inj hinner
        contradiction
      | cons a init => exact ⟨init, last, (List.cons.inj hinner).2, hlast⟩

namespace Clause
variable {c : Clause} (start : Nat)

theorem trimsBefore_ofBody :
    (Action.ofBody c.body start).trimsBefore = true ↔ c.OpensWithMarker :=
  isSome_afterMarker?_iff

theorem trimsAfter_ofBody :
    (Action.ofBody c.body start).trimsAfter = true ↔ c.ClosesWithMarker := by
  rw [Action.ofBody, isSome_beforeMarker?_inner]
  exact isSome_beforeMarker?_iff

instance (c : Clause) : Decidable c.OpensWithMarker := decidable_of_iff _ (trimsBefore_ofBody 0)

instance (c : Clause) : Decidable c.ClosesWithMarker := decidable_of_iff _ (trimsAfter_ofBody 0)

end Clause

/-- The segments of a template that begins at `start`. -/
def segmentsFrom (start : Nat) (first : List Char) : List Clause → List Segment
  | [] => [.text first start]
  | c :: rest =>
    let action := Action.ofBody c.body (start + byteLength first)
    .text first start :: .action action :: segmentsFrom action.stop c.after rest

theorem cut_of_isCut {clauses : List Clause} (h : IsCut s first clauses) (start : Nat) :
    Segment.cut start s = .ok (segmentsFrom start first clauses) := by
  induction h generalizing start with
  | text h =>
    rw [Segment.cut, splitAtPair?_eq_none_iff.mpr h]
    rfl
  | action hbefore hbody _ ih =>
    rw [Segment.cut, splitAtPair?_of_isBeforePair hbefore]
    dsimp only
    rw [splitAtPair?_of_isBeforePair hbody]
    dsimp only
    rw [ih]
    rfl

/-- Cutting goes well for the templates whose actions are all closed. -/
theorem cut_eq_ok_iff {start : Nat} {segments : List Segment} :
    Segment.cut start s = .ok segments ↔
      ∃ first clauses, IsCut s first clauses ∧ segments = segmentsFrom start first clauses := by
  constructor
  · intro h
    fun_induction Segment.cut start s generalizing segments with
    | case1 start s hnone =>
      exact ⟨s, [], .text (splitAtPair?_eq_none_iff.mp hnone), (Except.ok.inj h).symm⟩
    | case2 => cases h
    | case3 => cases h
    | case4 start s before inside hopen opening body rest hclose action later hlater =>
      rename_i ih
      obtain ⟨after, clauses, hcut, rfl⟩ := ih hlater
      obtain ⟨rfl, hbefore⟩ := splitAtPair?_eq_some_iff.mp hopen
      obtain ⟨rfl, hbody⟩ := splitAtPair?_eq_some_iff.mp hclose
      exact ⟨before, ⟨body, after⟩ :: clauses, .action hbefore hbody hcut,
        (Except.ok.inj h).symm⟩
  · rintro ⟨first, clauses, h, rfl⟩
    exact cut_of_isCut h start

/-- A template that can be parsed is cut, and its tree is built from what is left of the segments. -/
theorem parse_eq_ok_iff {template : String} {t : NameTemplate} : parse template = .ok t ↔
    ∃ first clauses nodes, IsCut template.toList first clauses ∧
      Node.ofTokens (byteLength template.toList) (Token.ofSegments (segmentsFrom 0 first clauses)) =
        .ok nodes ∧ t = ⟨template, nodes⟩ := by
  constructor
  · intro h
    unfold parse at h
    dsimp only at h
    split at h
    · contradiction
    · rename_i segments hcut
      split at h
      · contradiction
      · rename_i nodes hnodes
        obtain ⟨first, clauses, hc, rfl⟩ := cut_eq_ok_iff.mp hcut
        exact ⟨first, clauses, nodes, hc, hnodes, (Except.ok.inj h).symm⟩
  · rintro ⟨first, clauses, nodes, hc, hnodes, rfl⟩
    unfold parse
    dsimp only
    rw [cut_of_isCut hc]
    dsimp only
    rw [hnodes]

end ReleaseInstaller.NameTemplate
