import Mathlib.Data.List.Chain
import ReleaseInstaller.Proofs.Text.Newline

/-! Neighbours in a text. What no text may hold in its middle must not come about either where two
texts meet. -/
namespace ReleaseInstaller.Text

/-- No tag of a template opens with the two characters, and they are no `CR LF`. -/
def MayPrecede (c d : Char) : Prop := (c = '\x7b' → d ≠ '\x7b' ∧ d ≠ '%') ∧ (c = '\r' → d ≠ '\n')

/-- A text to which any other such text can be appended. -/
structure IsSeamless (s : List Char) : Prop where
  chain : s.IsChain MayPrecede
  last : ∀ c ∈ s.getLast?, c ≠ '\x7b' ∧ c ≠ '\r'

variable {c d : Char} {s t : List Char}

theorem mayPrecede_of_ne (hc : c ≠ '\x7b' ∧ c ≠ '\r') (d : Char) : MayPrecede c d :=
  ⟨fun h => absurd h hc.1, fun h => absurd h hc.2⟩

theorem isSeamless_nil : IsSeamless [] := ⟨.nil, by simp⟩

theorem IsSeamless.append (hs : IsSeamless s) (ht : IsSeamless t) : IsSeamless (s ++ t) := by
  constructor
  · rw [List.isChain_append]
    exact ⟨hs.chain, ht.chain, fun x hx y _ => mayPrecede_of_ne (hs.last x hx) y⟩
  · intro x hx
    rw [List.getLast?_append] at hx
    cases htl : t.getLast? with
    | none =>
      rw [htl] at hx
      exact hs.last x hx
    | some y =>
      rw [htl] at hx
      exact ht.last x (htl ▸ hx)

theorem isSeamless_flatMap {α : Type} {f : α → List Char} {l : List α}
    (h : ∀ x ∈ l, IsSeamless (f x)) : IsSeamless (l.flatMap f) := by
  induction l with
  | nil => exact isSeamless_nil
  | cons x l ih =>
    obtain ⟨hx, hl⟩ := List.forall_mem_cons.mp h
    rw [List.flatMap_cons]
    exact hx.append (ih hl)

theorem isChain_of_forall (h : ∀ c ∈ s, c ≠ '\x7b' ∧ c ≠ '\n') : s.IsChain MayPrecede := by
  induction s with
  | nil => exact .nil
  | cons c s ih =>
    obtain ⟨hc, hs⟩ := List.forall_mem_cons.mp h
    rw [List.isChain_cons]
    refine ⟨fun d hd => ?_, ih hs⟩
    have hd' := hs d (List.mem_of_mem_head? hd)
    exact ⟨fun h => absurd h hc.1, fun _ => hd'.2⟩

theorem not_infix_of_isChain (h : s.IsChain MayPrecede) (hcd : ¬ MayPrecede c d) :
    ¬ [c, d] <:+: s := by
  intro hi
  have hpair := h.infix hi
  rw [List.isChain_pair] at hpair
  exact hcd hpair

/-- White space apart from the space, and signs beyond ASCII, are not visible. -/
def isVisible (c : Char) : Bool := Nat.ble 32 c.toNat && Nat.ble c.toNat 126

def opensTag (c d : Char) : Bool := Nat.beq c.toNat 123 && (Nat.beq d.toNat 123 || Nat.beq d.toNat 37)

/-- Visible characters none of which open a tag. -/
def isClean : List Char → Bool
  | [] => true
  | [c] => isVisible c
  | c :: d :: rest => isVisible c && !opensTag c d && isClean (d :: rest)

theorem ne_of_isVisible (h : isVisible c = true) : c ≠ '\n' ∧ c ≠ '\r' := by
  constructor <;> rintro rfl <;> exact absurd h (by decide)

theorem forall_isVisible_of_isClean (h : isClean s = true) : ∀ c ∈ s, isVisible c = true := by
  fun_induction isClean s with
  | case1 => simp
  | case2 c => simpa using h
  | case3 c d rest ih =>
    simp only [Bool.and_eq_true] at h
    exact List.forall_mem_cons.mpr ⟨h.1.1, ih h.2⟩

theorem mayPrecede_of_not_opensTag (hc : isVisible c = true) (h : opensTag c d = false) :
    MayPrecede c d := by
  refine ⟨?_, fun hr => absurd hr (ne_of_isVisible hc).2⟩
  rintro rfl
  constructor <;> rintro rfl <;> exact absurd h (by decide)

theorem isChain_of_isClean (h : isClean s = true) : (s ++ ['\n']).IsChain MayPrecede := by
  fun_induction isClean s with
  | case1 => exact .singleton _
  | case2 c =>
    rw [List.singleton_append, List.isChain_pair]
    have hfeed : opensTag c '\n' = false := by
      rw [opensTag, Bool.and_comm]
      rfl
    exact mayPrecede_of_not_opensTag h hfeed
  | case3 c d rest ih =>
    simp only [Bool.and_eq_true, Bool.not_eq_true'] at h
    rw [List.cons_append, List.cons_append, List.isChain_cons_cons]
    exact ⟨mayPrecede_of_not_opensTag h.1.1 h.1.2, ih h.2⟩

/-- A clean text is one line, and the line is seamless once it ends. -/
theorem isLine_of_isClean (h : isClean s = true) : IsLine s := by
  have hvisible := forall_isVisible_of_isClean h
  constructor
  · intro hm
    exact (ne_of_isVisible (hvisible _ hm)).1 rfl
  · intro hl
    exact (ne_of_isVisible (hvisible _ (List.mem_of_getLast? hl))).2 rfl

theorem isSeamless_of_isClean (h : isClean s = true) : IsSeamless (s ++ ['\n']) :=
  ⟨isChain_of_isClean h, by simp⟩

end ReleaseInstaller.Text
