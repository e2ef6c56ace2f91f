import ReleaseInstaller.Proofs.Generation.Recheck
import ReleaseInstaller.Proofs.Script.Agreement

/-! A check that goes well leaves nothing to write: what a check accepts is left alone by the runs after
it, unless they insist. -/
namespace ReleaseInstaller.Generation
open Text Script Installer

/-- The same request at another time, which writes but does not insist on it. -/
def Request.unforced (q : Request) (date : Option String) : Request :=
  { q with check := false, force := false, generatedAt := date }

variable {server : Remote.Server} {s s' : Store} {q : Request} {path existing generated : String}

/-- Scripts without a difference do the same. -/
theorem substance_eq_of_difference? (h : difference? path existing generated = none) :
    substance existing.toList = substance generated.toList := by
  have hsame := difference?_eq_none_iff.mp h
  rw [← substance_comparable existing.toList, hsame, substance_comparable]

/-- Every script does something, so it is not the same as an empty file. -/
theorem substance_script_ne_nil (i : Installer) : substance i.script.toList ≠ [] := by
  have hopening : substance (unixNewlines (textOf (fixed ["#!/bin/sh", "set -e"]))) =
      ["set -e".toList] := by decide
  rw [substance_script, hopening]
  simp

/-- A check accepts a script only in a file that does what the script does. -/
theorem exists_text_of_check {i : Installer} (h : check s path i.script = .ok ()) :
    ∃ existing ∈ s.text? path, substance existing.toList = substance i.script.toList := by
  obtain ⟨existing, htext | ⟨-, rfl⟩, hnone⟩ := check_eq_ok_iff.mp h
  · exact ⟨existing, htext, substance_eq_of_difference? hnone⟩
  · exact absurd (substance_eq_of_difference? hnone).symm (substance_script_ne_nil i)

/-- What a check that went well has looked at. -/
theorem exists_installer_of_upToDate (h : generate server s q = (.ok (.upToDate path), s')) :
    s' = s ∧ q.output = some path ∧ ∃ release i, loadRelease server s q = .ok release ∧
      ofRelease release q.generatedAt = .ok i ∧ check s path i.script = .ok () := by
  rw [generate_eq] at h
  cases hscript : scriptFor server s q with
  | error failure =>
    rw [hscript] at h
    cases h
  | ok script =>
    rw [hscript] at h
    obtain ⟨release, i, hrelease, hi, rfl⟩ := scriptFor_eq_ok_iff.mp hscript
    cases delivered h with
    | upToDate hout _ hsame => exact ⟨rfl, hout, release, i, hrelease, hi, hsame⟩

/-- Texts that a check does not tell apart do the same, whatever lines they are made of. So a file that
passes a check is not written by the next run, unless that run insists on it. -/
theorem accepted_left_alone :
    (∀ path existing generated, difference? path existing generated = none →
      substance existing.toList = substance generated.toList) ∧
    ∀ (server : Remote.Server) (s s' : Store) (q : Request) (path : String),
      generate server s q = (.ok (.upToDate path), s') → s' = s ∧
        ∀ date, date = q.generatedAt ∨ IsDate q.generatedAt ∧ IsDate date →
          generate server s (q.unforced date) = (.ok (.unchanged path), s) := by
  refine ⟨fun _ _ _ => substance_eq_of_difference?, fun server s s' q path h => ?_⟩
  obtain ⟨hstore, hout, release, i, hrelease, hi, hcheck⟩ := exists_installer_of_upToDate h
  refine ⟨hstore, fun date hdate => ?_⟩
  obtain ⟨hversion, hat, hredated⟩ := ofRelease_redated hi
  obtain ⟨existing, htext, hsame⟩ := exists_text_of_check hcheck
  have hagain : substance i.script.toList =
      substance { i with generatedAt := date }.script.toList := by
    rcases hdate with rfl | ⟨hbefore, hafter⟩
    · rw [← hat]
    · rw [← hat] at hbefore
      exact (substance_redated_iff hversion hafter).mpr (hasQuietHeading_of_isDate hversion hbefore)
  have hrelease' : loadRelease server s (q.unforced date) = .ok release :=
    loadRelease_congr ⟨rfl, rfl, rfl⟩ hrelease fun _ _ _ h => h
  have hout' : (q.unforced date).output = some path := hout
  have hdue : isDue s (q.unforced date) path { i with generatedAt := date }.script = .ok false :=
    isDue_eq_false_iff.mpr ⟨rfl, existing, htext, hsame.trans hagain⟩
  rw [generate_of_installer hrelease' (hredated date), deliver_of_isDue hout' rfl, hdue]

/-- A file with a date and line ends of the other kind, and a `CR` within a line. -/
theorem accepted_left_alone_plain :
    (difference? "install.sh" "# Code generated by x on call. DO NOT EDIT.\r\nfoo\r  bar\r\n"
        "# Code generated by x. DO NOT EDIT.\nfoo\r  bar\n" = none ∧
      substance "# Code generated by x on call. DO NOT EDIT.\r\nfoo\r  bar\r\n".toList =
        substance "# Code generated by x. DO NOT EDIT.\nfoo\r  bar\n".toList) ∧
    generate Remote.unreachable (sideBySide plainInstaller.script) { plainRequest with check := true } =
        (.ok (.upToDate "install.sh"), sideBySide plainInstaller.script) ∧
      generate Remote.unreachable (sideBySide plainInstaller.script)
          (plainRequest.unforced (some "today")) =
        (.ok (.unchanged "install.sh"), sideBySide plainInstaller.script) := by
  have hnone : difference? "install.sh" "# Code generated by x on call. DO NOT EDIT.\r\nfoo\r  bar\r\n"
      "# Code generated by x. DO NOT EDIT.\nfoo\r  bar\n" = none :=
    difference?_eq_none_iff.mpr (by decide)
  have hrelease : loadRelease Remote.unreachable (sideBySide plainInstaller.script)
      { plainRequest with check := true } = .ok plainRelease :=
    loadRelease_congr ⟨rfl, rfl, rfl⟩ (loadRelease_plain plainInstaller.script) fun _ _ _ h => h
  have hcheck : generate Remote.unreachable (sideBySide plainInstaller.script)
      { plainRequest with check := true } =
        (.ok (.upToDate "install.sh"), sideBySide plainInstaller.script) := by
    rw [generate_check rfl rfl hrelease ofRelease_plain, check_eq_ok (text?_installer _) rfl]
    rfl
  obtain ⟨htexts, hruns⟩ := accepted_left_alone
  have hdates : IsDate plainRequest.generatedAt ∧ IsDate (some "today") := by decide
  exact ⟨⟨hnone, htexts _ _ _ hnone⟩, hcheck,
    (hruns _ _ _ _ _ hcheck).2 (some "today") (.inr hdates)⟩

end ReleaseInstaller.Generation
