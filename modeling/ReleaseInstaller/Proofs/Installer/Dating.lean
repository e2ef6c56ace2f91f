import ReleaseInstaller.Installer.Script
import ReleaseInstaller.Proofs.Script.Comparison
import ReleaseInstaller.Proofs.Script.Substance

/-! The date in the heading of an installer does not count when scripts are compared, and it is no part
of what a script does. -/
namespace ReleaseInstaller.Installer
open Text Script

/-- A date, or none, within one line. -/
def IsDate (date : Option String) : Prop := ∀ d ∈ date, '\n' ∉ d.toList

instance (date : Option String) : Decidable (IsDate date) :=
  inferInstanceAs (Decidable (∀ d ∈ date, '\n' ∉ d.toList))

/-- The line of the heading that holds the date. -/
def datedLine (i : Installer) : Line :=
  [.fixed "# Code generated by binfetch ", .value i.version] ++ dated i.generatedAt ++
    [.fixed ". DO NOT EDIT."]

/-- The lines after the one with the date. -/
def undatedLines (i : Installer) : List Line :=
  fixed ["#", ""] ++ usage i ++ arguments ++ execution i ++ platformCheck i ++ release ++
    adjustments i ++ toolbox ++ settings i ++ steps i

theorem undatedLines_redated (i : Installer) (date : Option String) :
    undatedLines { i with generatedAt := date } = undatedLines i := rfl

theorem lines_eq (i : Installer) : lines i =
    fixed ["#!/bin/sh", "set -e"] ++ [i.datedLine] ++ i.undatedLines := by
  simp [lines, heading, datedLine, undatedLines]

theorem text_datedLine {i : Installer} (hv : i.version = currentVersion) : i.datedLine.text =
    headingLead.toList ++
      ("binfetch 0.4.0".toList ++ Line.text (dated i.generatedAt) ++ headingTail.toList) := by
  simp [datedLine, Line.text, Piece.text, hv, currentVersion, headingLead, headingTail]

theorem text_dated (date : Option String) : Line.text (dated date) = [] ∨
    ∃ d ∈ date, Line.text (dated date) = " on ".toList ++ d.toList := by
  cases date with
  | none => exact .inl rfl
  | some d =>
    by_cases hd : d.isEmpty = true
    · exact .inl (by simp only [dated, if_pos hd]; rfl)
    · exact .inr ⟨d, rfl, by simp [dated, hd, Line.text, Piece.text]⟩

theorem datedLine_isLine {i : Installer} (hv : i.version = currentVersion)
    (hd : IsDate i.generatedAt) : IsLine i.datedLine.text := by
  have hlead : '\n' ∉ headingLead.toList := by decide
  have hgenerator : '\n' ∉ "binfetch 0.4.0".toList := by decide
  have htail : '\n' ∉ headingTail.toList := by decide
  have hdate : '\n' ∉ Line.text (dated i.generatedAt) := by
    rcases text_dated i.generatedAt with h | ⟨d, hm, h⟩
    · simp [h]
    · have hon : '\n' ∉ " on ".toList := by decide
      rw [h, List.mem_append, not_or]
      exact ⟨hon, hd d hm⟩
  rw [text_datedLine hv]
  constructor
  · simp only [List.mem_append, not_or]
    exact ⟨hlead, ⟨hgenerator, hdate⟩, htail⟩
  · rw [← List.append_assoc, getLast?_append_headingTail]
    decide

/-- Without its date, the line is the same for all installers of one version. -/
theorem undatedBody_datedLine {i : Installer} (hv : i.version = currentVersion) :
    undatedBody i.datedLine.text = "# Code generated by binfetch 0.4.0. DO NOT EDIT.".toList := by
  rw [text_datedLine hv]
  rcases text_dated i.generatedAt with h | ⟨d, -, h⟩
  · rw [h]
    decide
  · have hfirst : beforeFirst? " on ".toList ("binfetch 0.4.0".toList ++ (" on ".toList ++ d.toList)) =
        some "binfetch 0.4.0".toList := rfl
    have hu := undatedHeading?_append hfirst
    rw [h, undatedBody, hu]
    rfl

theorem textOf_append (l l' : List Line) : textOf (l ++ l') = textOf l ++ textOf l' :=
  List.flatMap_append

theorem textOf_wholeLines (l : List Line) : WholeLines (textOf l) :=
  wholeLines_flatMap fun line _ => wholeLines_feed line.text

theorem script_wholeLines (i : Installer) : WholeLines i.script.toList := by
  rw [script, String.toList_ofList]
  exact unixNewlines_wholeLines (textOf_wholeLines _)

theorem textOf_singleton (l : Line) : textOf [l] = l.text ++ ['\n'] :=
  List.flatMap_singleton ..

/-- The line with the date ends before the lines after it begin, whatever the date is. -/
theorem toList_script_parts (i : Installer) : i.script.toList =
    unixNewlines (textOf (fixed ["#!/bin/sh", "set -e"])) ++
      unixNewlines (i.datedLine.text ++ ['\n']) ++ unixNewlines (textOf i.undatedLines) := by
  rw [script, String.toList_ofList, lines_eq, textOf_append, textOf_append, textOf_singleton]
  rw [unixNewlines_append ((textOf_wholeLines _).append (wholeLines_feed _)),
    unixNewlines_append (textOf_wholeLines _)]

theorem toList_script (i : Installer) (hv : i.version = currentVersion)
    (hd : IsDate i.generatedAt) : i.script.toList =
      unixNewlines (textOf (fixed ["#!/bin/sh", "set -e"])) ++ (i.datedLine.text ++ ['\n']) ++
        unixNewlines (textOf i.undatedLines) := by
  rw [toList_script_parts, (datedLine_isLine hv hd).unixNewlines_feed]

/-- What is compared of an installer does not depend on its date. -/
theorem comparable_script {i : Installer} (hv : i.version = currentVersion)
    (hd : IsDate i.generatedAt) : comparable i.script.toList =
      comparable (unixNewlines (textOf (fixed ["#!/bin/sh", "set -e"]))) ++
        "# Code generated by binfetch 0.4.0. DO NOT EDIT.\n".toList ++
          comparable (unixNewlines (textOf i.undatedLines)) := by
  have hopening := unixNewlines_wholeLines (textOf_wholeLines (fixed ["#!/bin/sh", "set -e"]))
  rw [toList_script i hv hd, comparable_append (hopening.append (wholeLines_feed _)),
    comparable_append hopening, comparable_line (datedLine_isLine hv hd), undatedBody_datedLine hv]
  rfl

/-- Another date makes no difference. -/
theorem comparable_redated {i : Installer} (hv : i.version = currentVersion)
    (hd : IsDate i.generatedAt) {date : Option String} (hdate : IsDate date) :
    comparable { i with generatedAt := date }.script.toList = comparable i.script.toList := by
  have hi := comparable_script (i := { i with generatedAt := date }) hv hdate
  rw [comparable_script hv hd, hi, undatedLines_redated]

/-- The heading with the date does nothing: it is a remark to its end. -/
def HasQuietHeading (i : Installer) : Prop :=
  substance (unixNewlines (i.datedLine.text ++ ['\n'])) = []

instance (i : Installer) : Decidable i.HasQuietHeading :=
  inferInstanceAs (Decidable (substance (unixNewlines (i.datedLine.text ++ ['\n'])) = []))

theorem isPhrase_datedLine {i : Installer} (hv : i.version = currentVersion) :
    isPhrase (words i.datedLine.text) = false := by
  have hhash : IsSolid ['#'] := by decide
  have htext : ∃ rest, i.datedLine.text = ['#'] ++ ' ' :: rest := by
    rw [text_datedLine hv]
    exact ⟨_, rfl⟩
  obtain ⟨rest, htext⟩ := htext
  rw [htext, hhash.words_append (by decide)]
  rfl

/-- A date within one line stays within the remark. -/
theorem hasQuietHeading_of_isDate {i : Installer} (hv : i.version = currentVersion)
    (hd : IsDate i.generatedAt) : i.HasQuietHeading := by
  have hline := datedLine_isLine hv hd
  rw [HasQuietHeading, hline.unixNewlines_feed, substance_eq, hline.lines_feed]
  simp [phrases, isPhrase_datedLine hv]

theorem substance_script (i : Installer) : substance i.script.toList =
    substance (unixNewlines (textOf (fixed ["#!/bin/sh", "set -e"]))) ++
      substance (unixNewlines (i.datedLine.text ++ ['\n'])) ++
        substance (unixNewlines (textOf i.undatedLines)) := by
  have hopening := unixNewlines_wholeLines (textOf_wholeLines (fixed ["#!/bin/sh", "set -e"]))
  have hdated := unixNewlines_wholeLines (wholeLines_feed i.datedLine.text)
  rw [toList_script_parts, substance_append (hopening.append hdated), substance_append hopening]

/-- With another date a script does the same, provided that no date goes beyond its remark. -/
theorem substance_redated_iff {i : Installer} (hv : i.version = currentVersion)
    {date : Option String} (hdate : IsDate date) :
    substance i.script.toList = substance { i with generatedAt := date }.script.toList ↔
      i.HasQuietHeading := by
  have hquiet : HasQuietHeading { i with generatedAt := date } := hasQuietHeading_of_isDate hv hdate
  rw [HasQuietHeading] at hquiet
  rw [substance_script i, substance_script { i with generatedAt := date }, hquiet,
    undatedLines_redated i date, List.append_nil, List.append_cancel_right_eq,
    List.append_right_eq_self, HasQuietHeading]

end ReleaseInstaller.Installer
