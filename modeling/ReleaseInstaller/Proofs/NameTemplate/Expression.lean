import ReleaseInstaller.Proofs.NameTemplate.Translation
import ReleaseInstaller.Proofs.Shell.Word
import ReleaseInstaller.Proofs.Text.Blank
import ReleaseInstaller.Proofs.Text.Seam

/-! What is in an expression: references to the variables of fields, and nothing else that a shell or a
template would act on. -/
namespace ReleaseInstaller.NameTemplate
open Text Shell

variable {s : List Char}

/-- A reference, or one character that does nothing. -/
def IsAtom (p : List Char) : Prop :=
  (∃ f : Field, p = f.reference) ∨ ∃ c, p = [c] ∧ isWordChar c = true ∧ isActive c = false

theorem isExpression_of_isWord {w : String} (h : isWord w = true) : IsExpression w.toList :=
  .of_inert (isWord_iff.mp h).2

theorem IsExpression.exists_atoms (h : IsExpression s) :
    ∃ parts : List (List Char), s = parts.flatten ∧ ∀ p ∈ parts, IsAtom p := by
  induction h with
  | nil => exact ⟨[], rfl, by simp⟩
  | @inert c rest hc _ ih =>
    obtain ⟨parts, rfl, hparts⟩ := ih
    have hatom : IsAtom [c] := .inr ⟨c, rfl, hc, isActive_of_isWordChar hc⟩
    exact ⟨[c] :: parts, rfl, List.forall_mem_cons.mpr ⟨hatom, hparts⟩⟩
  | reference f _ ih =>
    obtain ⟨parts, rfl, hparts⟩ := ih
    exact ⟨f.reference :: parts, rfl, List.forall_mem_cons.mpr ⟨.inl ⟨f, rfl⟩, hparts⟩⟩

theorem Field.reference_noBlank (f : Field) : ∀ c ∈ f.reference, isBlank c = false := by
  apply noBlank_of_any
  cases f <;> decide

theorem Field.reference_isSeamless (f : Field) : IsSeamless f.reference := by
  constructor
  · cases f <;> unfold MayPrecede <;> decide
  · have hlast : f.reference.getLast? = some '\x7d' := by cases f <;> decide
    intro c hc
    rw [hlast] at hc
    obtain rfl := Option.some.inj hc
    decide

theorem IsExpression.noBlank (h : IsExpression s) : ∀ c ∈ s, isBlank c = false := by
  induction h with
  | nil => simp
  | inert hc _ ih => exact List.forall_mem_cons.mpr ⟨isBlank_of_isWordChar hc, ih⟩
  | reference f _ ih => exact List.forall_mem_append.mpr ⟨f.reference_noBlank, ih⟩

theorem isSeamless_of_isWordChar {c : Char} (hc : isWordChar c = true) : IsSeamless [c] := by
  have hbrace : c ≠ '\x7b' := ne_of_isWordChar hc (by decide)
  have hreturn : c ≠ '\r' := ne_of_isWordChar hc (by decide)
  exact ⟨.singleton c, by simp [hbrace, hreturn]⟩

theorem IsExpression.isSeamless (h : IsExpression s) : IsSeamless s := by
  induction h with
  | nil => exact isSeamless_nil
  | inert hc _ ih => exact (isSeamless_of_isWordChar hc).append ih
  | reference f _ ih => exact f.reference_isSeamless.append ih

end ReleaseInstaller.NameTemplate
