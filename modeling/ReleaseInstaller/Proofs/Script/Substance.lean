import ReleaseInstaller.Proofs.Text.Blank
import ReleaseInstaller.Proofs.Text.Newline
import ReleaseInstaller.Script

/-! What a script does, line by line. It is as much as the words of the lines that do something. -/
namespace ReleaseInstaller.Script
open Text

/-- Words of a line that is no remark. -/
def isPhrase : List (List Char) → Bool
  | [] => false
  | w :: _ => w.head? != some '#'

/-- The words of the lines that do something, line by line. -/
def phrases (lines : List (List Char)) : List (List (List Char)) :=
  (lines.map words).filter isPhrase

theorem phrases_append (l l' : List (List Char)) : phrases (l ++ l') = phrases l ++ phrases l' := by
  simp only [phrases, List.map_append, List.filter_append]

theorem phrases_cons {line : List Char} (h : isPhrase (words line) = true)
    (rest : List (List Char)) : phrases (line :: rest) = words line :: phrases rest := by
  simp [phrases, h]

/-- Whole lines do what they do on their own. -/
theorem substance_append {s : List Char} (h : WholeLines s) (t : List Char) :
    substance (s ++ t) = substance s ++ substance t := by
  simp only [substance, lines, linesWithEnd_append h, List.map_append, List.filter_append]

theorem isSubstantial_trim (line : List Char) :
    isSubstantial (trim line) = isPhrase (words line) := by
  have hhead := head?_trim line
  cases hw : words line with
  | nil =>
    rw [hw] at hhead
    rw [List.head?_eq_none_iff.mp hhead]
    rfl
  | cons w later =>
    have hsolid : IsSolid w := isSolid_of_mem_words (s := line) (by simp [hw])
    obtain ⟨c, tail, rfl⟩ := List.exists_cons_of_ne_nil hsolid.ne_nil
    rw [hw] at hhead
    obtain ⟨rest, hrest⟩ := List.head?_eq_some_iff.mp hhead
    rw [hrest]
    rfl

theorem substance_eq (s : List Char) : substance s = (phrases (lines s)).map spaced := by
  have htrim : ∀ line, words (trim line) = words line := words_trim
  simp only [substance, phrases, List.filter_map, List.map_map]
  have hsame : isSubstantial ∘ trim = isPhrase ∘ words := funext isSubstantial_trim
  rw [hsame]
  exact List.map_congr_left fun line _ => congrArg spaced (htrim line)

/-- One space between them keeps words apart. -/
theorem words_spaced {ws : List (List Char)} (h : ∀ w ∈ ws, IsSolid w) : words (spaced ws) = ws := by
  induction ws with
  | nil => rfl
  | cons w ws ih =>
    obtain ⟨hw, hws⟩ := List.forall_mem_cons.mp h
    cases ws with
    | nil => exact hw.words
    | cons v ws =>
      rw [spaced, hw.words_append (by decide), ih hws]
      simp

theorem map_words_map_spaced (l : List (List Char)) :
    ((phrases l).map spaced).map words = phrases l := by
  rw [List.map_map]
  refine (List.map_congr_left ?_).trans (List.map_id _)
  intro ws hws
  obtain ⟨line, -, rfl⟩ := List.mem_map.mp (List.mem_filter.mp hws).1
  exact words_spaced fun w hw => isSolid_of_mem_words hw

/-- Scripts do the same exactly if the words of their lines are the same. -/
theorem substance_eq_iff {s t : List Char} :
    substance s = substance t ↔ phrases (lines s) = phrases (lines t) := by
  rw [substance_eq, substance_eq]
  constructor
  · intro h
    rw [← map_words_map_spaced, h, map_words_map_spaced]
  · intro h
    rw [h]

end ReleaseInstaller.Script
