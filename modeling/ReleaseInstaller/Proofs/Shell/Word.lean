import Mathlib.Data.List.Basic
import ReleaseInstaller.Text.Basic

/-! Characters of words. None of them means anything to a shell. -/
namespace ReleaseInstaller.Shell
open Text

variable {c : Char}

/-- White space, quotes, and the signs that begin or end something for a shell. -/
def isActive (c : Char) : Bool :=
  isBlank c || ['"', '\'', '`', '$', '#', ')', ';', '\x7b', '\x7d'].contains c

theorem toNat_of_isAlphanum (h : c.isAlphanum = true) : 48 ≤ c.toNat ∧ c.toNat ≤ 122 := by
  have hrange : ∀ {lo hi : UInt32}, c.val ≥ lo ∧ c.val ≤ hi →
      lo.toNat ≤ c.val.toNat ∧ c.val.toNat ≤ hi.toNat := by
    intro lo hi hc
    simpa only [ge_iff_le, UInt32.le_iff_toNat_le] using hc
  change 48 ≤ c.val.toNat ∧ c.val.toNat ≤ 122
  rcases Bool.or_eq_true_iff.mp h with hletter | hdigit
  · rcases Bool.or_eq_true_iff.mp hletter with hupper | hlower
    · have hc : 65 ≤ c.val.toNat ∧ c.val.toNat ≤ 90 := hrange (of_decide_eq_true hupper)
      omega
    · have hbounds := Bool.and_eq_true_iff.mp hlower
      have hc : 97 ≤ c.val.toNat ∧ c.val.toNat ≤ 122 :=
        hrange (hbounds.imp of_decide_eq_true of_decide_eq_true)
      omega
  · have hbounds := Bool.and_eq_true_iff.mp hdigit
    have hc : 48 ≤ c.val.toNat ∧ c.val.toNat ≤ 57 :=
      hrange (hbounds.imp of_decide_eq_true of_decide_eq_true)
    omega

theorem toNat_of_isWordChar (h : isWordChar c = true) : 37 ≤ c.toNat ∧ c.toNat ≤ 122 := by
  simp only [isWordChar, Bool.or_eq_true, beq_iff_eq, or_assoc] at h
  rcases h with h | h | h | h | h | h | h | h | h | h | h
  case inl =>
    have hc := toNat_of_isAlphanum h
    omega
  all_goals
    subst h
    decide

theorem isActive_of_isWordChar (h : isWordChar c = true) : isActive c = false := by
  obtain ⟨hlo, hhi⟩ := toNat_of_isWordChar h
  rw [isActive, Bool.or_eq_false_iff]
  constructor
  · simp only [isBlank, Bool.or_eq_false_iff, Bool.and_eq_false_iff, decide_eq_false_iff_not,
      beq_eq_false_iff_ne]
    omega
  · rw [List.contains_eq_mem, decide_eq_false_iff_not]
    intro hs
    simp only [List.mem_cons, List.not_mem_nil, or_false] at hs
    rcases hs with rfl | rfl | rfl | rfl | rfl | rfl | rfl | rfl | rfl <;> exact absurd h (by decide)

theorem isBlank_of_isWordChar (h : isWordChar c = true) : isBlank c = false :=
  (Bool.or_eq_false_iff.mp (isActive_of_isWordChar h)).1

theorem ne_of_isWordChar {d : Char} (h : isWordChar c = true) (hd : isWordChar d = false) : c ≠ d := by
  rintro rfl
  rw [h] at hd
  contradiction

theorem isWord_iff {s : String} : isWord s = true ↔ s ≠ "" ∧ ∀ c ∈ s.toList, isWordChar c = true := by
  simp [isWord, List.all_eq_true]

theorem isWord_append {s t : String} (hs : isWord s = true) (ht : isWord t = true) :
    isWord (s ++ t) = true := by
  rw [isWord_iff] at hs ht ⊢
  refine ⟨by simp [hs.1], ?_⟩
  rw [String.toList_append, List.forall_mem_append]
  exact ⟨hs.2, ht.2⟩

end ReleaseInstaller.Shell
