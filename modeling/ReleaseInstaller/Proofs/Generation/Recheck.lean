import ReleaseInstaller.Proofs.Generation.Run
import ReleaseInstaller.Proofs.Installer.Dating
import ReleaseInstaller.Proofs.Installer.Inert
import ReleaseInstaller.Proofs.Script.Substance

/-! What a check says right after an installer was generated. -/
namespace ReleaseInstaller

namespace Generation
open Script Installer

/-- The same request as a check, at another time. -/
def Request.rechecked (q : Request) (date : Option String) : Request :=
  { q with check := true, force := false, generatedAt := date }

variable {server : Remote.Server} {s s' : Store} {q : Request} {path : String}

/-- A file that is written was not to be left alone for its remarks. -/
theorem not_differsInRemarks_of_isDue {generated : String}
    (h : isDue s q path generated = .ok true) :
    ¬ (q.force = false ∧ DiffersInRemarks s path generated) := by
  rintro ⟨hforce, existing, hexisting, hsubstance, -⟩
  rw [isDue_eq_false_iff.mpr ⟨hforce, existing, hexisting, hsubstance⟩] at h
  cases h

/-- What happens to an output that is not only looked at. -/
theorem deliver_eq_ok {generated : String} {outcome : Outcome} (hcheck : q.check = false)
    (hout : q.output = some path) (h : deliver q generated s = (.ok outcome, s')) :
    ∃ due, isDue s q path generated = .ok due ∧
      if due then outcome = .wrote path ∧ s.write path (.text generated) = .ok s'
      else outcome = .unchanged path ∧ s' = s := by
  cases delivered h with
  | printed hnone => simp [hout] at hnone
  | upToDate _ hcheck' => simp [hcheck] at hcheck'
  | leftAlone hout' _ hdue =>
    obtain rfl := Option.some.inj (hout.symm.trans hout')
    exact ⟨false, hdue, rfl, rfl⟩
  | wrote hout' _ hdue hwrite =>
    obtain rfl := Option.some.inj (hout.symm.trans hout')
    exact ⟨true, hdue, rfl, hwrite⟩

variable {r : Success}

/-- A check of an output answers what the comparison of the output answers, and changes nothing. -/
theorem generate_check {release : Release} {installer : Installer} (hcheck : q.check = true)
    (hout : q.output = some path) (hrelease : loadRelease server s q = .ok release)
    (hinstaller : ofRelease release q.generatedAt = .ok installer) : generate server s q =
      ((check s path installer.script).map fun _ => .upToDate path, s) := by
  rw [generate_of_installer hrelease hinstaller, deliver_of_check hout hcheck]

theorem sameSource_rechecked (q : Request) (date : Option String) :
    q.SameSource (q.rechecked date) := ⟨rfl, rfl, rfl⟩

/-- What a check of a request that went well looks at, at another time. -/
theorem generate_rechecked (hcheck : q.check = false) (hout : q.output = some path)
    (hfile : ∀ file ∈ q.file, Store.place file ≠ Store.place path)
    (h : attempt server s q = .ok r) (hdeliver : deliver q r.installer.script s = (.ok r.outcome, s'))
    (date : Option String) : generate server s' (q.rechecked date) =
      ((check s' path { r.installer with generatedAt := date }.script).map
        fun _ => .upToDate path, s') := by
  obtain ⟨hrelease, hinstaller, -⟩ := attempt_eq_ok_iff.mp h
  obtain ⟨-, -, hredated⟩ := ofRelease_redated hinstaller
  have hkept : ∀ file ∈ q.file, ∀ text, s.text? file = some text →
      s'.text? file = some text := by
    intro file hf text htext
    obtain ⟨due, -, hdue⟩ := deliver_eq_ok hcheck hout hdeliver
    cases due with
    | true => exact Store.text?_write_of_ne hdue.2 (hfile file hf) htext
    | false => rwa [hdue.2]
  have hrelease' := loadRelease_congr (sameSource_rechecked q date) hrelease hkept
  exact generate_check rfl hout hrelease' (hredated date)

/-- A description that says no more than the repository. -/
def plainDescription : String := "release: \x7bgithub: \x7bowner: o, name: r\x7d\x7d\n"

def plainProject : Project := ⟨none, ⟨"o", "r"⟩, [], ⟨none, none, [], ∅, false⟩, none⟩

def plainRelease : Release := Release.withDefaults plainProject plainProject.repo

def plainInstaller : Installer where
  version := currentVersion
  generatedAt := none
  projectName := "r"
  owner := "o"
  repo := "r"
  repoUrl := "https://github.com/o/r"
  binary := "r"
  binaries := ["r"]
  format := "tar.gz"
  wrapInDirectory := false
  archiveName := "NAME=$\x7bBINARY\x7d_$\x7bVERSION\x7d_$\x7bOS\x7d_$\x7bARCH\x7d"
  checksumName := "CHECKSUM=$\x7bPROJECT_NAME\x7d_$\x7bVERSION\x7d_checksums.txt"
  supported := ["linux/amd64", "linux/386", "darwin/amd64", "darwin/386"]
  excluded := []
  formatOverrides := []
  replacements := []

/-- An installer next to its description. -/
def sideBySide (existing : String) : Store :=
  ⟨[(["install.sh"], .text existing), (["release.yml"], .text plainDescription)]⟩

def plainRequest : Request :=
  ⟨some "release.yml", none, none, some "install.sh", false, false, none⟩

theorem text?_installer (existing : String) :
    (sideBySide existing).text? "install.sh" = some existing :=
  Store.text?_of_name (by decide +kernel) (by decide) (by decide) (by decide) rfl

theorem text?_description (existing : String) :
    (sideBySide existing).text? "release.yml" = some plainDescription :=
  Store.text?_of_name (by decide +kernel) (by decide) (by decide) (by decide) rfl

theorem ofProject_plain : Release.ofProject plainProject none = .ok plainRelease := by
  rw [← toOption_eq_some_iff]
  decide

theorem ofRelease_plain : ofRelease plainRelease none = .ok plainInstaller := by
  rw [← toOption_eq_some_iff]
  decide +kernel

theorem loadRelease_plain (existing : String) :
    loadRelease Remote.unreachable (sideBySide existing) plainRequest = .ok plainRelease := by
  have hproject : Project.ofYaml? plainDescription = some plainProject := by decide +kernel
  have hread := read_eq_ok_iff.mpr (text?_description existing)
  have hload : load (sideBySide existing) "release.yml" = .ok plainProject := by
    unfold load
    rw [hread]
    simp only [bind, Except.bind, hproject]
  unfold loadRelease
  refine bind_eq_ok.mpr ⟨none, rfl, bind_eq_ok.mpr ⟨plainProject, hload, ?_⟩⟩
  exact mapError_eq_ok.mpr ofProject_plain

/-- A file that does what the plain installer does is left alone. -/
theorem deliver_plain {existing : String}
    (h : substance existing.toList = substance plainInstaller.script.toList) :
    deliver plainRequest plainInstaller.script (sideBySide existing) =
      (.ok (.unchanged "install.sh"), sideBySide existing) := by
  have hdue : isDue (sideBySide existing) plainRequest "install.sh" plainInstaller.script = .ok false :=
    isDue_eq_false_iff.mpr ⟨rfl, existing, text?_installer existing, h⟩
  rw [deliver_of_isDue rfl rfl, hdue]

theorem attempt_plain {existing : String}
    (h : substance existing.toList = substance plainInstaller.script.toList) :
    attempt Remote.unreachable (sideBySide existing) plainRequest =
      .ok ⟨plainRelease, plainInstaller, .unchanged "install.sh"⟩ := by
  refine attempt_eq_ok_iff.mpr ⟨loadRelease_plain existing, ofRelease_plain, ?_⟩
  rw [deliver_plain h]

/-- A file is up to date right after it was generated, unless it was left alone because it differs
in its remarks or its layout only. The check refuses such a file. -/
theorem generate_rechecked_iff (hcheck : q.check = false) (hout : q.output = some path)
    (hfile : ∀ file ∈ q.file, Store.place file ≠ Store.place path) (hdate : IsDate q.generatedAt)
    {date : Option String} (hdate' : IsDate date) (h : attempt server s q = .ok r) :
    ((generate server (generate server s q).2 (q.rechecked date)).1 = .ok (.upToDate path) ↔
      ¬ (q.force = false ∧ DiffersInRemarks s path r.installer.script)) ∧
    (q.force = false ∧ DiffersInRemarks s path r.installer.script →
      generate server s q = (.ok (.unchanged path), s) ∧ ∃ difference,
        generate server s (q.rechecked date) = (.error (.outOfDate path difference), s)) := by
  obtain ⟨-, hinstaller, -⟩ := attempt_eq_ok_iff.mp h
  obtain ⟨after, hdeliver, hgenerate⟩ := generate_of_attempt h
  obtain ⟨hversion, hat, -⟩ := ofRelease_redated hinstaller
  rw [← hat] at hdate
  have hsame := comparable_redated hversion hdate hdate'
  have hrecheck := generate_rechecked hcheck hout hfile h hdeliver date
  obtain ⟨due, hisDue, hdue⟩ := deliver_eq_ok hcheck hout hdeliver
  rw [hgenerate, hrecheck]
  cases due with
  | true =>
    have htext := Store.text?_write hdue.2
    have hnot := not_differsInRemarks_of_isDue hisDue
    rw [check_eq_ok htext hsame.symm]
    exact ⟨iff_of_true rfl hnot, fun hdiffers => absurd hdiffers hnot⟩
  | false =>
    obtain ⟨hforce, existing, hexisting, hsubstance⟩ := isDue_eq_false_iff.mp hisDue
    obtain ⟨houtcome, hstore⟩ := hdue
    rw [hstore] at hrecheck ⊢
    by_cases heq : comparable existing.toList = comparable r.installer.script.toList
    · have hnot : ¬ (q.force = false ∧ DiffersInRemarks s path r.installer.script) := by
        rintro ⟨-, hdiffers⟩
        exact ((differsInRemarks_iff hexisting).mp hdiffers).2 heq
      rw [check_eq_ok hexisting (heq.trans hsame.symm)]
      exact ⟨iff_of_true rfl hnot, fun hdiffers => absurd hdiffers hnot⟩
    · have hdiffers : q.force = false ∧ DiffersInRemarks s path r.installer.script :=
        ⟨hforce, (differsInRemarks_iff hexisting).mpr ⟨hsubstance, heq⟩⟩
      obtain ⟨difference, herror⟩ := check_eq_error hexisting fun h => heq (h.trans hsame)
      rw [herror] at hrecheck ⊢
      refine ⟨iff_of_false ?_ (fun hnot => hnot hdiffers), fun _ => ⟨?_, difference, hrecheck⟩⟩
      · intro h
        cases h
      · rw [houtcome]

theorem generate_rechecked_iff_plain :
    (generate Remote.unreachable
      (generate Remote.unreachable (sideBySide plainInstaller.script) plainRequest).2
      (plainRequest.rechecked (some "today"))).1 = .ok (.upToDate "install.sh") := by
  have hfile : ∀ file ∈ plainRequest.file, Store.place file ≠ Store.place "install.sh" := by
    decide +kernel
  have hdate : IsDate plainRequest.generatedAt := by decide
  have hdate' : IsDate (some "today") := by decide
  have h := generate_rechecked_iff rfl rfl hfile hdate hdate' (attempt_plain rfl)
  apply h.1.mpr
  rintro ⟨-, hdiffers⟩
  exact ((differsInRemarks_iff (text?_installer _)).mp hdiffers).2 rfl

/-- With a remark behind it, an installer is left alone, and then it is out of date. -/
theorem remark_left_alone_out_of_date :
    let edited := sideBySide (plainInstaller.script ++ "# a remark\n")
    generate Remote.unreachable edited plainRequest = (.ok (.unchanged "install.sh"), edited) ∧
      (generate Remote.unreachable edited (plainRequest.rechecked none)).1 ≠
        .ok (.upToDate "install.sh") := by
  intro edited
  have hwhole := script_wholeLines plainInstaller
  have hsubstance : substance (plainInstaller.script ++ "# a remark\n").toList =
      substance plainInstaller.script.toList := by
    rw [String.toList_append, substance_append hwhole]
    have hremark : substance "# a remark\n".toList = [] := by decide
    rw [hremark, List.append_nil]
  have hcomparable : comparable (plainInstaller.script ++ "# a remark\n").toList ≠
      comparable plainInstaller.script.toList := by
    rw [String.toList_append, comparable_append hwhole]
    have hremark : comparable "# a remark\n".toList ≠ [] := by decide
    intro h
    exact hremark (List.append_right_eq_self.mp h)
  have hrelease := loadRelease_plain (plainInstaller.script ++ "# a remark\n")
  have hrelease' := loadRelease_congr (sameSource_rechecked plainRequest none) hrelease
    fun _ _ _ h => h
  obtain ⟨difference, herror⟩ := check_eq_error (text?_installer _) hcomparable
  refine ⟨(generate_of_installer hrelease ofRelease_plain).trans (deliver_plain hsubstance), ?_⟩
  rw [generate_check rfl rfl hrelease' ofRelease_plain, herror]
  intro h
  cases h

end Generation

end ReleaseInstaller
