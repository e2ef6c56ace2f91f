import Mathlib.Data.List.Forall2
import ReleaseInstaller.Proofs.Script.Comparison
import ReleaseInstaller.Proofs.Script.Substance

/-! Scripts that a check does not tell apart do the same: what a check takes off a script is nothing but
line ends and parts of remarks. -/
namespace ReleaseInstaller.Script
open Text

section Words
variable {l l' : List Char}

/-- Texts of the same words, also behind the beginning of a word. -/
def HaveSameWords (l l' : List Char) : Prop := ∀ run, words.go run l = words.go run l'

theorem haveSameWords_refl (l : List Char) : HaveSameWords l l := fun _ => rfl

theorem HaveSameWords.cons (h : HaveSameWords l l') (c : Char) : HaveSameWords (c :: l) (c :: l') := by
  intro run
  rw [words.go, words.go, h [], h (c :: run)]

theorem haveSameWords_feeds : HaveSameWords ['\r', '\n'] ['\n'] := by
  intro run
  have hreturn : isBlank '\r' = true := by decide
  have hfeed : isBlank '\n' = true := by decide
  simp [words.go, words.flush, hreturn, hfeed]

/-- With its end or without it, a line has the same words. -/
theorem words_dropLineEnd (line : List Char) : words (dropLineEnd line) = words line := by
  have hreturn : isBlank '\r' = true := by decide
  have hfeed : isBlank '\n' = true := by decide
  have hline := line.reverse_reverse.symm
  unfold dropLineEnd
  split
  · rename_i body heq
    rw [heq, List.reverse_cons, List.reverse_cons] at hline
    rw [hline, words_append_singleton hfeed, words_append_singleton hreturn]
  · rename_i body _ heq
    rw [heq, List.reverse_cons] at hline
    rw [hline, words_append_singleton hfeed]
  · rfl

theorem phrases_lines_eq (s : List Char) : phrases (lines s) = phrases (linesWithEnd s) := by
  have hwords : ∀ line, words (dropLineEnd line) = words line := words_dropLineEnd
  simp only [phrases, lines, List.map_map, Function.comp_def, hwords]

end Words

/-- Line ends of the other kind leave the words of each line alone, and a lone `CR` is a space like any
other. -/
theorem forall₂_linesWithEnd (s : List Char) :
    List.Forall₂ HaveSameWords (linesWithEnd s) (linesWithEnd (unixNewlines s)) := by
  fun_induction unixNewlines s with
  | case1 => exact .nil
  | case2 rest ih =>
    have hreturn : linesWithEnd ('\r' :: '\n' :: rest) = ['\r', '\n'] :: linesWithEnd rest :=
      linesWithEnd_cons (by decide) rfl
    rw [hreturn]
    exact .cons haveSameWords_feeds ih
  | case3 c rest _ ih =>
    rw [linesWithEnd, linesWithEnd]
    split
    · exact .cons (haveSameWords_refl [c]) ih
    · generalize linesWithEnd rest = later at ih ⊢
      generalize linesWithEnd (unixNewlines rest) = later' at ih ⊢
      cases ih with
      | nil => exact .cons (haveSameWords_refl [c]) .nil
      | cons hline hlines => exact .cons (hline.cons c) hlines

theorem substance_unixNewlines (s : List Char) : substance (unixNewlines s) = substance s := by
  have hwords : (linesWithEnd s).map words = (linesWithEnd (unixNewlines s)).map words := by
    refine List.forall₂_eq_eq_eq ▸ List.forall₂_map_left_iff.mpr (List.forall₂_map_right_iff.mpr ?_)
    exact (forall₂_linesWithEnd s).imp fun _ _ h => h []
  rw [substance_eq_iff, phrases_lines_eq, phrases_lines_eq, phrases, phrases, hwords]

section Lines
variable {line : List Char}

theorem isPhrase_hash (s : List Char) : isPhrase (words ('#' :: s)) = false := by
  obtain ⟨tail, later, h⟩ := words_cons_of_not_blank (by decide : isBlank '#' = false) s
  rw [h]
  rfl

/-- A heading is a remark with its date and without it. -/
theorem phrases_undatedBody (line : List Char) : phrases [undatedBody line] = phrases [line] := by
  cases h : undatedHeading? line with
  | none => rw [undatedBody, h, Option.getD_none]
  | some heading =>
    obtain ⟨inner, generator, rfl, -, rfl⟩ := undatedHeading?_eq_some h
    have hremark : ∀ s, phrases [headingLead.toList ++ s] = [] := by
      intro s
      have hhash : isPhrase (words (headingLead.toList ++ s)) = false := isPhrase_hash _
      simp [phrases, hhash]
    rw [undatedBody, h, Option.getD_some, hremark, List.append_assoc, hremark]

theorem substance_feed (h : '\n' ∉ line) :
    substance (line ++ ['\n']) = (phrases [line]).map spaced := by
  have hfeed : words (line ++ ['\n']) = words line := words_append_singleton (by decide) line
  rw [substance_eq, phrases_lines_eq, linesWithEnd_feed h]
  simp only [phrases, List.map_cons, List.map_nil, hfeed]

theorem substance_last (h : '\n' ∉ line) : substance line = (phrases [line]).map spaced := by
  rw [substance_eq, phrases_lines_eq]
  by_cases hne : line = []
  · rw [hne]
    rfl
  · rw [linesWithEnd_last hne h]

theorem undated_last (h : '\n' ∉ line) : undated line = undatedBody line := by
  by_cases hne : line = []
  · rw [hne]
    rfl
  · have hlast : ∀ body, line.reverse ≠ '\n' :: body := by
      intro body hreverse
      exact h (List.mem_reverse.mp (hreverse ▸ List.mem_cons_self))
    rw [undated, linesWithEnd_last hne h, List.flatMap_singleton, undatedLine]
    split
    · rename_i body hreverse
      exact absurd hreverse (hlast body)
    · rfl

end Lines

/-- Without the dates of its headings a script does the same. -/
theorem substance_undated (s : List Char) : substance (undated s) = substance s := by
  by_cases hfeed : '\n' ∈ s
  · obtain ⟨line, rest, hs, hline⟩ := List.eq_append_cons_of_mem hfeed
    have hsplit : s = (line ++ ['\n']) ++ rest := by rw [hs, List.append_assoc, List.singleton_append]
    have ih := substance_undated rest
    have hwhole := wholeLines_feed line
    have hundated := wholeLines_feed (undatedBody line)
    rw [hsplit, undated_append hwhole, undated_line hline, substance_append hundated,
      substance_append hwhole, substance_feed hline, substance_feed (undatedBody_noFeed hline),
      phrases_undatedBody, ih]
  · rw [undated_last hfeed, substance_last hfeed, substance_last (undatedBody_noFeed hfeed),
      phrases_undatedBody]
termination_by s.length
decreasing_by
  have hlength := congrArg List.length hs
  simp only [List.length_append, List.length_cons] at hlength
  omega

/-- What a check compares of a script does what the script does. -/
theorem substance_comparable (s : List Char) : substance (comparable s) = substance s := by
  rw [comparable, substance_unixNewlines, substance_undated, substance_unixNewlines]

end ReleaseInstaller.Script
