import Mathlib.Data.List.Basic
import Mathlib.Data.List.Induction
import Mathlib.Data.List.TakeWhile
import ReleaseInstaller.Text.Basic

/-! What trimming takes off a text, and how a text begins with its first word. -/
namespace ReleaseInstaller.Text

variable {c : Char} {s : List Char}

theorem isPrefix_dropEndWhile (p : Char → Bool) (s : List Char) : dropEndWhile p s <+: s := by
  rw [← List.reverse_suffix, dropEndWhile, List.reverse_reverse]
  exact List.dropWhile_suffix p

theorem dropEndWhile_eq_self {p : Char → Bool} (h : ∀ c ∈ s.getLast?, p c = false) :
    dropEndWhile p s = s := by
  cases s using List.reverseRecOn with
  | nil => rfl
  | append_singleton s c =>
    have hc : p c = false := h c (by simp)
    simp [dropEndWhile, hc]

/-- Nothing in front of a character that stays is dropped. -/
theorem dropEndWhile_append_stop {p : Char → Bool} (hc : p c = false) (s t : List Char) :
    dropEndWhile p (s ++ c :: t) = s ++ c :: dropEndWhile p t := by
  have hreverse : (s ++ c :: t).reverse = t.reverse ++ c :: s.reverse := by simp
  rw [dropEndWhile, dropEndWhile, hreverse, List.dropWhile_append]
  split
  · rename_i hempty
    rw [List.isEmpty_iff.mp hempty, List.dropWhile_cons_of_neg (by simp [hc])]
    simp
  · simp

theorem exists_dropWhile (p : Char → Bool) (s : List Char) :
    ∃ dropped, s = dropped ++ s.dropWhile p ∧ ∀ c ∈ dropped, p c = true :=
  ⟨s.takeWhile p, List.takeWhile_append_dropWhile.symm, fun _ hc => List.mem_takeWhile_imp hc⟩

theorem exists_dropEndWhile (p : Char → Bool) (s : List Char) :
    ∃ dropped, s = dropEndWhile p s ++ dropped ∧ ∀ c ∈ dropped, p c = true := by
  obtain ⟨dropped, hs, hdropped⟩ := exists_dropWhile p s.reverse
  refine ⟨dropped.reverse, ?_, by simpa using hdropped⟩
  calc s = s.reverse.reverse := s.reverse_reverse.symm
    _ = (dropped ++ s.reverse.dropWhile p).reverse := by rw [← hs]
    _ = dropEndWhile p s ++ dropped.reverse := List.reverse_append

theorem dropEndWhile_append_of_pos {p : Char → Bool} {dropped : List Char}
    (h : ∀ c ∈ dropped, p c = true) (s : List Char) :
    dropEndWhile p (s ++ dropped) = dropEndWhile p s := by
  unfold dropEndWhile
  rw [List.reverse_append, List.dropWhile_append_of_pos (by simpa using h)]

theorem exists_trimStart (s : List Char) :
    ∃ blanks, s = blanks ++ trimStart s ∧ ∀ c ∈ blanks, isBlank c = true :=
  exists_dropWhile isBlank s

theorem exists_trimEnd (s : List Char) :
    ∃ blanks, s = trimEnd s ++ blanks ∧ ∀ c ∈ blanks, isBlank c = true :=
  exists_dropEndWhile isBlank s

theorem trimStart_append_of_blank {lead : List Char} (h : ∀ c ∈ lead, isBlank c = true)
    (s : List Char) : trimStart (lead ++ s) = trimStart s := by
  unfold trimStart
  exact List.dropWhile_append_of_pos h

theorem trimStart_eq_self (h : ∀ c ∈ s.head?, isBlank c = false) : trimStart s = s := by
  cases s with
  | nil => rfl
  | cons c s => simp [trimStart, h c rfl]

theorem trimEnd_append_of_blank {trail : List Char} (h : ∀ c ∈ trail, isBlank c = true)
    (s : List Char) : trimEnd (s ++ trail) = trimEnd s :=
  dropEndWhile_append_of_pos h s

/-- The text that is left is within the text. -/
theorem exists_trim (s : List Char) : ∃ before after, s = before ++ trim s ++ after ∧
    (∀ c ∈ before, isBlank c = true) ∧ ∀ c ∈ after, isBlank c = true := by
  obtain ⟨before, hstart, hbefore⟩ := exists_trimStart s
  obtain ⟨after, hend, hafter⟩ := exists_trimEnd (trimStart s)
  refine ⟨before, after, ?_, hbefore, hafter⟩
  rw [List.append_assoc, trim, ← hend, ← hstart]

theorem getLast?_trimEnd (s : List Char) : ∀ c ∈ (trimEnd s).getLast?, isBlank c = false := by
  intro c hc
  have hhead := List.head?_dropWhile_not isBlank s.reverse
  rw [trimEnd, dropEndWhile, List.getLast?_reverse] at hc
  rw [hc] at hhead
  simpa using hhead

theorem trimEnd_eq_self (h : ∀ c ∈ s.getLast?, isBlank c = false) : trimEnd s = s :=
  dropEndWhile_eq_self h

theorem trimEnd_trimEnd (s : List Char) : trimEnd (trimEnd s) = trimEnd s :=
  trimEnd_eq_self (getLast?_trimEnd s)

theorem length_trimEnd_le (s : List Char) : (trimEnd s).length ≤ s.length := by
  obtain ⟨blanks, hs, -⟩ := exists_trimEnd s
  have hlength := congrArg List.length hs
  rw [List.length_append] at hlength
  omega

theorem trimEnd_eq_self_of_length (h : (trimEnd s).length = s.length) : trimEnd s = s := by
  obtain ⟨blanks, hs, -⟩ := exists_trimEnd s
  have hlength := congrArg List.length hs
  rw [List.length_append] at hlength
  have hnil : blanks = [] := List.length_eq_zero_iff.mp (by omega)
  rw [hnil, List.append_nil] at hs
  exact hs.symm

theorem trim_infix (s : List Char) : trim s <:+: s := by
  obtain ⟨before, after, hs, -, -⟩ := exists_trim s
  exact ⟨before, after, hs.symm⟩

/-- Trimming leaves a text alone if it neither begins nor ends with white space. -/
theorem trim_eq_self_iff {s : List Char} : trim s = s ↔
    (∀ c ∈ s.head?, isBlank c = false) ∧ ∀ c ∈ s.getLast?, isBlank c = false := by
  constructor
  · intro h
    have hstart : (trimStart s).length = s.length := by
      have hend := length_trimEnd_le (trimStart s)
      have hle : (trimStart s).length ≤ s.length := (List.dropWhile_suffix isBlank).length_le
      rw [← trim, h] at hend
      omega
    have hself : trimStart s = s := (List.dropWhile_suffix isBlank).eq_of_length hstart
    constructor
    · intro c hc
      have hhead := List.head?_dropWhile_not isBlank s
      rw [← trimStart, hself, hc] at hhead
      simpa using hhead
    · rw [← h]
      exact getLast?_trimEnd (trimStart s)
  · rintro ⟨hhead, hlast⟩
    rw [trim, trimStart_eq_self hhead, trimEnd_eq_self hlast]

/-- White space around a text is trimmed off. -/
theorem trim_append_of_blank {before after : List Char} (hbefore : ∀ c ∈ before, isBlank c = true)
    (hafter : ∀ c ∈ after, isBlank c = true) (hne : s ≠ []) (h : ∀ c ∈ s, isBlank c = false) :
    trim (before ++ s ++ after) = s := by
  have hhead : ∀ c ∈ (s ++ after).head?, isBlank c = false := by
    rw [List.head?_append_of_ne_nil s hne]
    exact fun c hc => h c (List.mem_of_head? hc)
  rw [trim, List.append_assoc, trimStart_append_of_blank hbefore, trimStart_eq_self hhead,
    trimEnd_append_of_blank hafter]
  exact trimEnd_eq_self fun c hc => h c (List.mem_of_getLast? hc)

/-- No white space is in the first word, and one such character comes right behind it. -/
theorem firstWord_eq (s : List Char) : (∀ c ∈ (firstWord s).1, isBlank c = false) ∧
    ((s = (firstWord s).1 ∧ (firstWord s).2 = []) ∨
      ∃ c, isBlank c = true ∧ s = (firstWord s).1 ++ c :: (firstWord s).2) := by
  induction s with
  | nil => simp [firstWord]
  | cons c s ih =>
    cases hc : isBlank c with
    | true => simp [firstWord, hc]
    | false =>
      obtain ⟨hword, hrest⟩ := ih
      simp only [firstWord, hc, Bool.false_eq_true, if_false, List.forall_mem_cons, true_and,
        List.cons_append, List.cons.injEq]
      exact ⟨hword, hrest⟩

end ReleaseInstaller.Text
