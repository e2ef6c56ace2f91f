import ReleaseInstaller.Proofs.Installer.Cases
import ReleaseInstaller.Proofs.Platform.Exclusion

/-! What a script says about a platform, and what the build says about it. -/
namespace ReleaseInstaller.Installer
open Shell NameTemplate Release

variable {env : Environment} {i : Installer}

/-- Without arms nothing happens, whether the statement is there or not. -/
theorem runCases_optionalStatement (env : Environment) (subject : String) (arms : List CaseArm) :
    runCases env (optionalStatement subject arms) = CaseStatement.run env ⟨subject, arms⟩ := by
  cases arms <;> rfl

/-- All arms assign the same, so it does not matter which of them is the first that fits. -/
theorem run_platformArms (env : Environment) (found : String) (platforms : List String) :
    CaseStatement.run env ⟨"platform", platformArms found platforms⟩ =
      if env "platform" ∈ platforms then Function.update env "found" found else env := by
  unfold CaseStatement.run
  cases hfind : (platformArms found platforms).find? fun a => a.pattern == env "platform" with
  | none =>
    have hnone : env "platform" ∉ platforms := by
      intro hm
      have harm := List.find?_eq_none.mp hfind ⟨env "platform", "found", found⟩
        (List.mem_map_of_mem hm)
      exact harm (beq_self_eq_true _)
    rw [if_neg hnone]
  | some a =>
    obtain ⟨p, hp, rfl⟩ := List.mem_map.mp (List.mem_of_find?_eq_some hfind)
    have hfits := List.find?_some hfind
    have hpattern : p = env "platform" := eq_of_beq hfits
    rw [if_pos (hpattern ▸ hp)]

theorem casesOf_platformCheck (h : i.IsInert) :
    casesOf "is_supported_platform" i.script = some (platformStatements i) := by
  have hcases := casesOf_statements h _ List.mem_cons_self
  rwa [if_neg (not_endsEarly_platformStatements h)] at hcases

/-- The exclusions run last, so they have the last word. -/
theorem runCases_platformStatements (hfound : env "found" = "1") :
    runCases env (platformStatements i) "found" =
      if env "platform" ∈ i.supported ∧ env "platform" ∉ i.excluded then "0" else "1" := by
  have hne : "platform" ≠ "found" := by decide
  have hfirst : runCases env (platformStatements i) =
      runCases (if env "platform" ∈ i.supported then Function.update env "found" "0" else env)
        (optionalStatement "platform" (platformArms "1" i.excluded)) := by
    rw [← run_platformArms]
    rfl
  rw [hfirst, runCases_optionalStatement, run_platformArms]
  by_cases hs : env "platform" ∈ i.supported
  · rw [if_pos hs, Function.update_of_ne hne]
    by_cases he : env "platform" ∈ i.excluded
    · have hnot : ¬ (env "platform" ∈ i.supported ∧ env "platform" ∉ i.excluded) := fun h => h.2 he
      rw [if_pos he, if_neg hnot, Function.update_self]
    · rw [if_neg he, if_pos ⟨hs, he⟩, Function.update_self]
  · have hnot : ¬ (env "platform" ∈ i.supported ∧ env "platform" ∉ i.excluded) := fun h => hs h.1
    rw [if_neg hs, if_neg hnot]
    by_cases he : env "platform" ∈ i.excluded
    · rw [if_pos he, Function.update_self]
    · rw [if_neg he, hfound]

/-- Run on any platform, the statements of the script find it exactly if the first build of the
release supports it. -/
theorem exists_verdict {r : Release} {archiveName checksumName : Assignment}
    (hr : r.validate = .ok ())
    (harchive : NameTemplate.assign archiveTarget r.archive.nameTemplate = .ok archiveName)
    (hchecksum : NameTemplate.assign checksumTarget r.checksumTemplate = .ok checksumName)
    (date : Option String) : ∃ primary rest i cases, r.builds = primary :: rest ∧
      ofRelease r date = .ok i ∧ casesOf "is_supported_platform" i.script = some cases ∧
      cases.length = (if i.excluded = [] then 1 else 2) ∧
      ∀ (platform : String) (env : Environment), env "platform" = platform → env "found" = "1" →
        (runCases env cases "found" = "0" ↔
          (PlatformMatrix.ofBuild primary).isSupported platform = true) := by
  obtain ⟨primary, rest, hb, hi, hinert⟩ := exists_ofRelease hr harchive hchecksum date
  refine ⟨primary, rest, _, _, hb, hi, casesOf_platformCheck hinert, ?_, ?_⟩
  · simp only [platformStatements, optionalStatement, platformArms, List.isEmpty_iff,
      List.map_eq_nil_iff]
    split <;> rfl
  · rintro platform env rfl hfound
    have hzero : ∀ p : Prop, [Decidable p] → ((if p then "0" else "1") = "0" ↔ p) := by
      intro p _
      split <;> simp [*]
    rw [runCases_platformStatements hfound, isSupported_iff, hzero]
    rfl

/-- A platform that is found, and one that is excluded. -/
theorem exists_verdict_arm : ∃ i cases, ofRelease armRelease none = .ok i ∧
    casesOf "is_supported_platform" i.script = some cases ∧
    runCases (fun name => if name = "platform" then "linux/armv7" else "1") cases "found" = "0" ∧
    runCases (fun name => if name = "platform" then "darwin/armv6" else "1") cases "found" ≠ "0" := by
  obtain ⟨primary, rest, i, cases, hb, hi, hcases, -, hverdict⟩ :=
    exists_verdict validate_armRelease assign_armArchive assign_armChecksum none
  obtain ⟨rfl, -⟩ := List.cons.inj hb
  refine ⟨i, cases, hi, hcases, ?_, ?_⟩
  · exact (hverdict "linux/armv7" _ rfl rfl).mpr (by decide +kernel)
  · rw [Ne, hverdict "darwin/armv6" _ rfl rfl]
    decide +kernel

end ReleaseInstaller.Installer
