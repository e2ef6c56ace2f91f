import ReleaseInstaller.Proofs.Text.Newline
import ReleaseInstaller.Proofs.Text.Split
import ReleaseInstaller.Script

/-! What a check compares, line by line. -/
namespace ReleaseInstaller.Script
open Text

/-- A line, without its end, without the date of a heading. -/
def undatedBody (line : List Char) : List Char := (undatedHeading? line).getD line

theorem beforeFirst?_subset {needle s before : List Char} (h : beforeFirst? needle s = some before) :
    before ⊆ s := by
  induction s generalizing before with
  | nil =>
    rw [beforeFirst?] at h
    split at h
    · simp [← Option.some.inj h]
    · contradiction
  | cons c s ih =>
    rw [beforeFirst?] at h
    split at h
    · simp [← Option.some.inj h]
    · obtain ⟨u, hu, rfl⟩ := Option.map_eq_some_iff.mp h
      exact List.cons_subset_cons c (ih hu)

theorem undatedHeading?_eq_some {line heading : List Char} (h : undatedHeading? line = some heading) :
    ∃ inner generator, line = headingLead.toList ++ (inner ++ headingTail.toList) ∧
      beforeFirst? " on ".toList inner = some generator ∧
      heading = headingLead.toList ++ generator ++ headingTail.toList := by
  simp only [undatedHeading?, Option.bind_eq_bind, Option.bind_eq_some_iff, Option.pure_def,
    Option.some.injEq] at h
  obtain ⟨rest, hlead, inner, htail, generator, hg, rfl⟩ := h
  rw [afterLead?_eq_some_iff] at hlead
  rw [beforeTail?_eq_some_iff] at htail
  exact ⟨inner, generator, by rw [hlead, htail], hg, rfl⟩

theorem getLast?_append_headingTail (s : List Char) :
    (s ++ headingTail.toList).getLast? = some '.' := by
  rw [List.getLast?_append]
  rfl

theorem undatedHeading?_append {inner generator : List Char}
    (h : beforeFirst? " on ".toList inner = some generator) :
    undatedHeading? (headingLead.toList ++ (inner ++ headingTail.toList)) =
      some (headingLead.toList ++ generator ++ headingTail.toList) := by
  simp only [undatedHeading?, afterLead?_eq_some_iff.mpr rfl, beforeTail?_eq_some_iff.mpr rfl, h,
    Option.bind_eq_bind, Option.bind_some, Option.pure_def]

theorem undatedBody_noFeed {line : List Char} (h : '\n' ∉ line) : '\n' ∉ undatedBody line := by
  cases hu : undatedHeading? line with
  | none => simpa only [undatedBody, hu, Option.getD_none] using h
  | some heading =>
    obtain ⟨inner, generator, rfl, hg, rfl⟩ := undatedHeading?_eq_some hu
    simp only [undatedBody, hu, Option.getD_some]
    intro hm
    apply h
    simp only [List.mem_append] at hm ⊢
    rcases hm with (hm | hm) | hm
    · exact .inl hm
    · exact .inr (.inl (beforeFirst?_subset hg hm))
    · exact .inr (.inr hm)

theorem undatedBody_isLine {line : List Char} (h : IsLine line) : IsLine (undatedBody line) where
  noFeed := undatedBody_noFeed h.noFeed
  noReturn := by
    cases hu : undatedHeading? line with
    | none => simpa only [undatedBody, hu, Option.getD_none] using h.noReturn
    | some heading =>
      obtain ⟨inner, generator, rfl, -, rfl⟩ := undatedHeading?_eq_some hu
      simp only [undatedBody, hu, Option.getD_some]
      rw [getLast?_append_headingTail]
      decide

theorem undatedLine_feed (line : List Char) :
    undatedLine (line ++ ['\n']) = undatedBody line ++ ['\n'] := by
  have hr : (line ++ ['\n']).reverse = '\n' :: line.reverse := by simp
  simp only [undatedLine, hr, List.reverse_reverse, undatedBody]
  cases undatedHeading? line <;> rfl

theorem undated_append {s : List Char} (h : WholeLines s) (t : List Char) :
    undated (s ++ t) = undated s ++ undated t := by
  rw [undated, linesWithEnd_append h, List.flatMap_append]
  rfl

theorem undated_line {line : List Char} (h : '\n' ∉ line) :
    undated (line ++ ['\n']) = undatedBody line ++ ['\n'] := by
  rw [undated, linesWithEnd_feed h, List.flatMap_singleton, undatedLine_feed]

theorem undated_wholeLines {s : List Char} (h : WholeLines s) : WholeLines (undated s) := by
  apply wholeLines_flatMap
  intro line hl
  obtain ⟨body, rfl⟩ := linesWithEnd_feeds h line hl
  rw [undatedLine_feed]
  exact wholeLines_feed _

/-- Whole lines are compared on their own. -/
theorem comparable_append {s : List Char} (h : WholeLines s) (t : List Char) :
    comparable (s ++ t) = comparable s ++ comparable t := by
  have hu := unixNewlines_wholeLines h
  rw [comparable, unixNewlines_append h, undated_append hu,
    unixNewlines_append (undated_wholeLines hu)]
  rfl

/-- Which kind of line ends a text has does not count, if it has only one kind. -/
theorem comparable_dosNewlines {s : List Char} (h : unixNewlines s = s) :
    comparable (dosNewlines s) = comparable s := by
  rw [comparable, unixNewlines_dosNewlines, comparable, h]

theorem comparable_line {line : List Char} (h : IsLine line) :
    comparable (line ++ ['\n']) = undatedBody line ++ ['\n'] := by
  rw [comparable, h.unixNewlines_feed, undated_line h.noFeed, (undatedBody_isLine h).unixNewlines_feed]

end ReleaseInstaller.Script
