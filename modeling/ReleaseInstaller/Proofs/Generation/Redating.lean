import ReleaseInstaller.Proofs.Generation.Output
import ReleaseInstaller.Proofs.Installer.Lines

/-! A check of an installer that was generated at another time. -/
namespace ReleaseInstaller.Generation
open Text Script Installer Release

/-- The script with `CR LF` for each `LF`. -/
def withDosNewlines (script : String) : String := String.ofList (dosNewlines script.toList)

variable {r : Release} {i : Installer} {date date' : Option String}

/-- A check of an inert installer is the same for both kinds of line ends. -/
theorem comparable_withDosNewlines (h : i.IsInert) (hdate : IsDate i.generatedAt) :
    comparable (withDosNewlines i.script).toList = comparable i.script.toList := by
  rw [withDosNewlines, String.toList_ofList]
  exact comparable_dosNewlines (unixNewlines_script h hdate)

/-- The date of an installer never fails a check, and neither do the line ends of an installer for a
valid release. -/
theorem difference?_redated (h : ofRelease r date = .ok i) (hdate : IsDate date)
    (hdate' : IsDate date') : ∃ j, ofRelease r date' = .ok j ∧
      (∀ path, difference? path i.script j.script = none ∧
        difference? path j.script i.script = none) ∧
      (r.validate = .ok () → ∀ path,
        difference? path (withDosNewlines i.script) j.script = none ∧
          difference? path (withDosNewlines j.script) i.script = none) := by
  obtain ⟨hversion, hat, hredated⟩ := ofRelease_redated h
  rw [← hat] at hdate
  have hj := hredated date'
  have hsame := comparable_redated hversion hdate hdate'
  refine ⟨{ i with generatedAt := date' }, hj, fun path => ⟨?_, ?_⟩, fun hvalid path => ⟨?_, ?_⟩⟩
  · exact difference?_eq_none_iff.mpr hsame.symm
  · exact difference?_eq_none_iff.mpr hsame
  · have hinert := isInert_of_isValid (validate_eq_ok_iff.mp hvalid) h
    exact difference?_eq_none_iff.mpr ((comparable_withDosNewlines hinert hdate).trans hsame.symm)
  · have hinert := isInert_of_isValid (validate_eq_ok_iff.mp hvalid) hj
    exact difference?_eq_none_iff.mpr ((comparable_withDosNewlines hinert hdate').trans hsame)

theorem difference?_redated_arm : ∃ i j,
    ofRelease armRelease (some "today on call. DO NOT EDIT.\r") = .ok i ∧
      ofRelease armRelease none = .ok j ∧ difference? "install.sh" i.script j.script = none ∧
        difference? "install.sh" (withDosNewlines i.script) j.script = none := by
  have hdate : IsDate (some "today on call. DO NOT EDIT.\r") := by decide
  have hdate' : IsDate none := by decide
  obtain ⟨primary, rest, -, hi, -⟩ :=
    exists_ofRelease validate_armRelease assign_armArchive assign_armChecksum
      (some "today on call. DO NOT EDIT.\r")
  obtain ⟨j, hj, hplain, hdos⟩ := difference?_redated hi hdate hdate'
  exact ⟨_, j, hi, hj, (hplain "install.sh").1, (hdos validate_armRelease "install.sh").1⟩

end ReleaseInstaller.Generation
