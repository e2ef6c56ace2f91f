import Mathlib.Data.List.Infix
import ReleaseInstaller.Text.Basic

/-! What is under a span. A span that begins or ends within a character is over nothing. -/
namespace ReleaseInstaller.Text

variable {text under s t u v : List Char} {a b : Span}

/-- The span lies in the text, from one character up to another, with these characters under it. -/
def Span.IsOver (a : Span) (text under : List Char) : Prop :=
  ∃ before after, text = before ++ under ++ after ∧ byteLength before = a.offset ∧
    byteLength under = a.length

theorem length_le_byteLength (s : List Char) : s.length ≤ byteLength s := by
  induction s with
  | nil => simp
  | cons c s ih =>
    have hpos := c.utf8Size_pos
    simp only [List.length_cons, byteLength_cons]
    omega

theorem eq_nil_of_byteLength (h : byteLength s = 0) : s = [] := by
  have hle := length_le_byteLength s
  exact List.eq_nil_of_length_eq_zero (by omega)

/-- Of two prefixes of a text the one of fewer bytes begins the other. -/
theorem prefix_of_byteLength_le (hs : s <+: t) (hu : u <+: t) (h : byteLength s ≤ byteLength u) :
    s <+: u := by
  rcases List.prefix_or_prefix_of_prefix hs hu with hsu | ⟨rest, rfl⟩
  · exact hsu
  · rw [byteLength_append] at h
    have hrest : rest = [] := eq_nil_of_byteLength (by omega)
    simp [hrest]

namespace Span

theorem isOver_between (before under after : List Char) :
    (between (byteLength before) (byteLength before + byteLength under)).IsOver
      (before ++ under ++ after) under := by
  refine ⟨before, after, rfl, rfl, ?_⟩
  simp only [between]
  omega

theorem stop_between {start stop : Nat} (h : start ≤ stop) : (between start stop).stop = stop := by
  simp only [between, Span.stop]
  omega

/-- There is one text under a span. -/
theorem IsOver.unique (h : a.IsOver text u) (h' : a.IsOver text v) : u = v := by
  obtain ⟨before, after, rfl, hoffset, hlength⟩ := h
  obtain ⟨before', after', heq, hoffset', hlength'⟩ := h'
  rw [List.append_assoc] at heq
  have hfirst : before <+: before' := by
    apply prefix_of_byteLength_le ⟨u ++ after, rfl⟩ ⟨v ++ after', by rw [heq, List.append_assoc]⟩
    omega
  obtain ⟨gap, rfl⟩ := hfirst
  have hgap : gap = [] := by
    rw [byteLength_append] at hoffset'
    exact eq_nil_of_byteLength (by omega)
  subst hgap
  rw [List.append_nil, List.append_assoc] at heq
  have hrest := List.append_cancel_left heq
  have huv : u <+: v :=
    prefix_of_byteLength_le ⟨after, rfl⟩ ⟨after', hrest.symm⟩ (by omega)
  obtain ⟨gap, rfl⟩ := huv
  have hnone : gap = [] := by
    rw [byteLength_append] at hlength'
    exact eq_nil_of_byteLength (by omega)
  simp [hnone]

/-- Two spans one after the other, and what lies between them. -/
theorem IsOver.hull (ha : a.IsOver text u) (hb : b.IsOver text v) (h : a.stop ≤ b.offset) :
    ∃ mid, (between a.offset b.stop).IsOver text (u ++ mid ++ v) := by
  obtain ⟨before, after, rfl, hoffset, hlength⟩ := ha
  obtain ⟨before', after', heq, hoffset', hlength'⟩ := hb
  have hfirst : before ++ u <+: before' := by
    apply prefix_of_byteLength_le ⟨after, rfl⟩ ⟨v ++ after', by rw [heq, List.append_assoc]⟩
    rw [byteLength_append, hoffset, hlength, hoffset']
    exact h
  obtain ⟨mid, rfl⟩ := hfirst
  refine ⟨mid, before, after', by simp [heq], hoffset, ?_⟩
  simp only [byteLength_append] at hoffset' ⊢
  simp only [between, Span.stop]
  omega

/-- From the start of a span to the end of the text. -/
theorem IsOver.toEnd (h : a.IsOver text u) :
    ∃ rest, (between a.offset (byteLength text)).IsOver text (u ++ rest) := by
  obtain ⟨before, after, rfl, hoffset, -⟩ := h
  refine ⟨after, before, [], by simp, hoffset, ?_⟩
  simp only [between, byteLength_append]
  omega

end Span

end ReleaseInstaller.Text
