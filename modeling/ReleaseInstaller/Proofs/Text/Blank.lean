import Mathlib.Data.List.Induction
import ReleaseInstaller.Text.Basic

/-! Words of a text. White space separates them, wherever it stands and however much of it. -/
namespace ReleaseInstaller.Text

variable {c : Char} {s w : List Char}

/-- A text that is one word. -/
structure IsSolid (w : List Char) : Prop where
  ne_nil : w ≠ []
  noBlank : ∀ c ∈ w, isBlank c = false

theorem noBlank_of_any (h : s.any isBlank = false) : ∀ c ∈ s, isBlank c = false := by
  simpa only [List.any_eq_false, Bool.not_eq_true] using h

instance (w : List Char) : Decidable (IsSolid w) :=
  decidable_of_iff (w ≠ [] ∧ w.any isBlank = false)
    ⟨fun h => ⟨h.1, noBlank_of_any h.2⟩, fun h => ⟨h.ne_nil, by simpa using h.noBlank⟩⟩

theorem IsSolid.cons (hc : isBlank c = false) (h : ∀ x ∈ w, isBlank x = false) : IsSolid (c :: w) :=
  ⟨List.cons_ne_nil c w, List.forall_mem_cons.mpr ⟨hc, h⟩⟩

theorem IsSolid.append {v : List Char} (hv : IsSolid v) (hw : ∀ x ∈ w, isBlank x = false) :
    IsSolid (v ++ w) :=
  ⟨by simp [hv.ne_nil], List.forall_mem_append.mpr ⟨hv.noBlank, hw⟩⟩

namespace words

theorem go_append_blank (hc : isBlank c = true) (run s t : List Char) :
    go run (s ++ c :: t) = go run s ++ words t := by
  induction s generalizing run with
  | nil => simp [go, hc, words]
  | cons d s ih =>
    rw [List.cons_append, go, go]
    split
    · rw [ih, List.append_assoc]
    · exact ih (d :: run)

theorem go_of_noBlank (h : ∀ c ∈ w, isBlank c = false) (run : List Char) :
    go run w = flush (w.reverse ++ run) := by
  induction w generalizing run with
  | nil => rfl
  | cons c w ih =>
    obtain ⟨hc, hw⟩ := List.forall_mem_cons.mp h
    simp [go, hc, ih hw]

/-- Once a word has begun, it goes on with what has been read of it. -/
theorem go_eq_cons {run : List Char} (hrun : run ≠ []) (s : List Char) :
    ∃ tail later, go run s = (run.reverse ++ tail) :: later := by
  induction s generalizing run with
  | nil => exact ⟨[], [], by simp [go, flush, hrun]⟩
  | cons c s ih =>
    rw [go]
    split
    · exact ⟨[], go [] s, by simp [flush, hrun]⟩
    · obtain ⟨tail, later, h⟩ := ih (List.cons_ne_nil c run)
      exact ⟨c :: tail, later, by simp [h]⟩

theorem isSolid_of_mem_flush {run : List Char} (hrun : ∀ c ∈ run, isBlank c = false)
    (h : w ∈ flush run) : IsSolid w := by
  unfold flush at h
  split at h
  · contradiction
  · rename_i hne
    obtain rfl := List.mem_singleton.mp h
    exact ⟨by simpa using hne, by simpa using hrun⟩

theorem isSolid_of_mem_go {run : List Char} (hrun : ∀ c ∈ run, isBlank c = false)
    (h : w ∈ go run s) : IsSolid w := by
  induction s generalizing run with
  | nil => exact isSolid_of_mem_flush hrun h
  | cons c s ih =>
    rw [go] at h
    split at h
    · rcases List.mem_append.mp h with h | h
      · exact isSolid_of_mem_flush hrun h
      · exact ih (by simp) h
    · rename_i hc
      rw [Bool.not_eq_true] at hc
      exact ih (List.forall_mem_cons.mpr ⟨hc, hrun⟩) h

end words

/-- White space separates words. -/
theorem words_append_blank (hc : isBlank c = true) (s t : List Char) :
    words (s ++ c :: t) = words s ++ words t :=
  words.go_append_blank hc [] s t

theorem words_nil : words [] = [] := rfl

theorem words_cons_blank (hc : isBlank c = true) (s : List Char) : words (c :: s) = words s :=
  words_append_blank hc [] s

theorem words_append_singleton (hc : isBlank c = true) (s : List Char) :
    words (s ++ [c]) = words s := by
  rw [words_append_blank hc, words_nil, List.append_nil]

theorem IsSolid.words (h : IsSolid w) : Text.words w = [w] := by
  rw [Text.words, words.go_of_noBlank h.noBlank]
  simp [words.flush, h.ne_nil]

theorem IsSolid.words_append (h : IsSolid w) (hc : isBlank c = true) (s : List Char) :
    Text.words (w ++ c :: s) = w :: Text.words s := by
  rw [words_append_blank hc, h.words, List.singleton_append]

theorem isSolid_of_mem_words (h : w ∈ words s) : IsSolid w := words.isSolid_of_mem_go (by simp) h

theorem words_cons_of_not_blank (hc : isBlank c = false) (s : List Char) :
    ∃ tail later, words (c :: s) = (c :: tail) :: later := by
  obtain ⟨tail, later, h⟩ := words.go_eq_cons (List.cons_ne_nil c []) s
  exact ⟨tail, later, by simpa [words, words.go, hc] using h⟩

theorem words_trimStart (s : List Char) : words (trimStart s) = words s := by
  induction s with
  | nil => rfl
  | cons c s ih =>
    rw [trimStart, List.dropWhile_cons]
    split
    · rename_i hc
      rw [words_cons_blank hc]
      exact ih
    · rfl

theorem trimEnd_append_blank (hc : isBlank c = true) (s : List Char) :
    trimEnd (s ++ [c]) = trimEnd s := by
  simp [trimEnd, dropEndWhile, hc]

theorem trimEnd_append_of_not_blank (hc : isBlank c = false) (s : List Char) :
    trimEnd (s ++ [c]) = s ++ [c] := by
  simp [trimEnd, dropEndWhile, hc]

theorem words_trimEnd (s : List Char) : words (trimEnd s) = words s := by
  induction s using List.reverseRecOn with
  | nil => rfl
  | append_singleton s c ih =>
    cases hc : isBlank c with
    | true => rw [trimEnd_append_blank hc, words_append_singleton hc, ih]
    | false => rw [trimEnd_append_of_not_blank hc]

theorem words_trim (s : List Char) : words (trim s) = words s := by
  rw [trim, words_trimEnd, words_trimStart]

theorem trimEnd_cons_of_not_blank (hc : isBlank c = false) (s : List Char) :
    ∃ tail, trimEnd (c :: s) = c :: tail := by
  induction s using List.reverseRecOn with
  | nil => exact ⟨[], trimEnd_append_of_not_blank hc []⟩
  | append_singleton s d ih =>
    rw [← List.cons_append]
    cases hd : isBlank d with
    | true => rwa [trimEnd_append_blank hd]
    | false => exact ⟨s ++ [d], trimEnd_append_of_not_blank hd (c :: s)⟩

/-- What is left of a text without the white space around it begins as its first word does. -/
theorem head?_trim (s : List Char) : (trim s).head? = ((words s).head?).bind List.head? := by
  rw [← words_trimStart s, trim]
  cases hs : trimStart s with
  | nil => rfl
  | cons c rest =>
    have hc : isBlank c = false := by
      have hhead := List.head?_dropWhile_not isBlank s
      rw [show List.dropWhile isBlank s = c :: rest from hs] at hhead
      simpa using hhead
    obtain ⟨tail, hend⟩ := trimEnd_cons_of_not_blank hc rest
    obtain ⟨first, later, hwords⟩ := words_cons_of_not_blank hc rest
    rw [hend, hwords]
    rfl

end ReleaseInstaller.Text
