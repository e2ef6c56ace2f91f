import ReleaseInstaller.Proofs.Generation.Recheck

/-! Generating an installer again and again. Once it is written, it is left alone. -/
namespace ReleaseInstaller.Generation
open Script Installer

/-- The same request at another time, which does not insist on writing. -/
def Request.repeated (q : Request) (date : Option String) : Request :=
  { q with force := false, generatedAt := date }

/-- The answers to requests that are made one after the other, and the directory tree after them. -/
def generateAll (server : Remote.Server) (s : Store) :
    List Request → List (Except Failure Outcome) × Store
  | [] => ([], s)
  | q :: later =>
    let (answer, s) := generate server s q
    let (answers, s) := generateAll server s later
    (answer :: answers, s)

variable {server : Remote.Server} {s s' : Store} {q : Request} {path : String}

/-- Runs that leave the directory tree alone do not depend on each other. -/
theorem generateAll_of_forall {answer : Except Failure Outcome} {qs : List Request}
    (h : ∀ q ∈ qs, generate server s q = (answer, s)) :
    generateAll server s qs = (qs.map fun _ => answer, s) := by
  induction qs with
  | nil => rfl
  | cons q later ih =>
    obtain ⟨hq, hlater⟩ := List.forall_mem_cons.mp h
    simp only [generateAll, hq, ih hlater, List.map_cons]

theorem sameSource_repeated (q : Request) (date : Option String) :
    q.SameSource (q.repeated date) := ⟨rfl, rfl, rfl⟩

theorem deliver_wrote {script : String} (h : deliver q script s = (.ok (.wrote path), s')) :
    q.output = some path ∧ q.check = false ∧ s.write path (.text script) = .ok s' := by
  cases delivered h with
  | wrote hout hcheck _ hwrite => exact ⟨hout, hcheck, hwrite⟩

/-- What is written is a script for the request. -/
theorem exists_installer_of_wrote (h : generate server s q = (.ok (.wrote path), s')) :
    ∃ release i, loadRelease server s q = .ok release ∧ ofRelease release q.generatedAt = .ok i ∧
      deliver q i.script s = (.ok (.wrote path), s') := by
  rw [generate_eq] at h
  cases hscript : scriptFor server s q with
  | error failure =>
    rw [hscript] at h
    cases h
  | ok script =>
    rw [hscript] at h
    obtain ⟨release, i, hrelease, hi, rfl⟩ := scriptFor_eq_ok_iff.mp hscript
    exact ⟨release, i, hrelease, hi, h⟩

section Again
variable {release : Release} {i : Installer} {date : Option String}

/-- A repeated run comes to the same script, apart from the date. -/
theorem generate_repeated_eq (hrelease : loadRelease server s q = .ok release)
    (hi : ofRelease release q.generatedAt = .ok i) : generate server s (q.repeated date) =
      deliver (q.repeated date) { i with generatedAt := date }.script s := by
  obtain ⟨-, -, hredated⟩ := ofRelease_redated hi
  have hrelease' := loadRelease_congr (sameSource_repeated q date) hrelease fun _ _ _ h => h
  exact generate_of_installer hrelease' (hredated date)

/-- An installer that is there is left alone exactly if its heading does nothing. -/
theorem isDue_repeated_iff (hi : ofRelease release q.generatedAt = .ok i)
    (htext : s.text? path = some i.script) (hdate : IsDate date) :
    isDue s (q.repeated date) path { i with generatedAt := date }.script = .ok false ↔
      i.HasQuietHeading := by
  obtain ⟨hversion, -, -⟩ := ofRelease_redated hi
  rw [isDue_eq_false_iff, ← substance_redated_iff hversion hdate]
  constructor
  · rintro ⟨-, existing, hexisting, hsame⟩
    obtain rfl := Option.some.inj (htext.symm.trans hexisting)
    exact hsame
  · intro hsame
    exact ⟨rfl, i.script, htext, hsame⟩

theorem generate_repeated (hout : q.output = some path) (hcheck : q.check = false)
    (hrelease : loadRelease server s q = .ok release)
    (hi : ofRelease release q.generatedAt = .ok i) (htext : s.text? path = some i.script)
    (hdate : IsDate date) (hquiet : i.HasQuietHeading) :
    generate server s (q.repeated date) = (.ok (.unchanged path), s) := by
  have hout' : (q.repeated date).output = some path := hout
  have hdue := (isDue_repeated_iff hi htext hdate).mpr hquiet
  rw [generate_repeated_eq hrelease hi, deliver_of_isDue hout' hcheck, hdue]

theorem hasQuietHeading_of_unchanged (hrelease : loadRelease server s q = .ok release)
    (hi : ofRelease release q.generatedAt = .ok i) (htext : s.text? path = some i.script)
    (hdate : IsDate date) (h : generate server s (q.repeated date) = (.ok (.unchanged path), s')) :
    i.HasQuietHeading := by
  rw [generate_repeated_eq hrelease hi] at h
  cases delivered h with
  | leftAlone _ _ hdue => exact (isDue_repeated_iff hi htext hdate).mp hdue

end Again

theorem write_sideBySide (existing text : String) :
    (sideBySide existing).write "install.sh" (.text text) = .ok (sideBySide text) := by
  have hnames : Store.names "install.sh" = ["install.sh"] := by decide +kernel
  have hpieces : Store.pieces "install.sh" = ["install.sh"] := by decide +kernel
  have hstart : Store.start "install.sh" = [] := by decide +kernel
  simp only [Store.write, hnames, hpieces, hstart]
  rfl

section Plain
variable {existing : String} {force : Bool} {date : Option String}

/-- The plain installer is written with its date, if it is to be written at all. -/
theorem generate_plain_of_isDue
    (hdue : isDue (sideBySide existing) { plainRequest with force, generatedAt := date } "install.sh"
      { plainInstaller with generatedAt := date }.script = .ok true) :
    generate Remote.unreachable (sideBySide existing)
        { plainRequest with force, generatedAt := date } =
      (.ok (.wrote "install.sh"), sideBySide { plainInstaller with generatedAt := date }.script) := by
  obtain ⟨-, -, hredated⟩ := ofRelease_redated ofRelease_plain
  have hrelease : loadRelease Remote.unreachable (sideBySide existing)
      { plainRequest with force, generatedAt := date } = .ok plainRelease :=
    loadRelease_congr ⟨rfl, rfl, rfl⟩ (loadRelease_plain existing) fun _ _ _ h => h
  rw [generate_of_installer hrelease (hredated date), deliver_of_isDue rfl rfl, hdue]
  simp only [write, write_sideBySide]
  rfl

theorem isDue_plain (h : substance existing.toList ≠
    substance { plainInstaller with generatedAt := date }.script.toList) :
    isDue (sideBySide existing) { plainRequest with generatedAt := date } "install.sh"
      { plainInstaller with generatedAt := date }.script = .ok true := by
  change shouldWrite (sideBySide existing) "install.sh" _ = .ok true
  rw [shouldWrite_of_text? (text?_installer existing), bne_iff_ne.mpr h]

end Plain

/-- An installer that has been written is left as it is by all later runs that do not insist,
provided that its date stays within the remark that tells it. Otherwise the next run writes it again. -/
theorem generateAll_repeated (hfile : ∀ file ∈ q.file, Store.place file ≠ Store.place path)
    (h : generate server s q = (.ok (.wrote path), s')) {dates : List (Option String)}
    (hdates : ∀ date ∈ dates, IsDate date) : ∃ release i,
    loadRelease server s q = .ok release ∧ ofRelease release q.generatedAt = .ok i ∧
      s'.text? path = some i.script ∧
      (IsDate q.generatedAt → generateAll server s' (dates.map q.repeated) =
        (dates.map fun _ => .ok (.unchanged path), s')) ∧
      (dates ≠ [] → (generateAll server s' (dates.map q.repeated) =
        (dates.map fun _ => .ok (.unchanged path), s') ↔ i.HasQuietHeading)) := by
  obtain ⟨release, i, hrelease, hi, hdeliver⟩ := exists_installer_of_wrote h
  obtain ⟨hout, hcheck, hwrite⟩ := deliver_wrote hdeliver
  obtain ⟨hversion, hat, -⟩ := ofRelease_redated hi
  have htext := Store.text?_write hwrite
  have hrelease' : loadRelease server s' q = .ok release :=
    loadRelease_congr ⟨rfl, rfl, rfl⟩ hrelease fun file hf _ =>
      Store.text?_write_of_ne hwrite (hfile file hf)
  have hall (hquiet : i.HasQuietHeading) : generateAll server s' (dates.map q.repeated) =
      (dates.map fun _ => .ok (.unchanged path), s') := by
    have hstep : ∀ q' ∈ dates.map q.repeated,
        generate server s' q' = (.ok (.unchanged path), s') := by
      intro q' hq'
      obtain ⟨date, hdate, rfl⟩ := List.mem_map.mp hq'
      exact generate_repeated hout hcheck hrelease' hi htext (hdates date hdate) hquiet
    rw [generateAll_of_forall hstep, List.map_map]
    rfl
  refine ⟨release, i, hrelease, hi, htext, fun hdate => ?_, fun hne => ⟨fun hruns => ?_, hall⟩⟩
  · rw [← hat] at hdate
    exact hall (hasQuietHeading_of_isDate hversion hdate)
  · obtain ⟨date, later, rfl⟩ := List.exists_cons_of_ne_nil hne
    simp only [List.map_cons, generateAll, Prod.mk.injEq, List.cons.injEq] at hruns
    have hfirst : generate server s' (q.repeated date) =
        (.ok (.unchanged path), (generate server s' (q.repeated date)).2) :=
      Prod.ext hruns.1.1 rfl
    exact hasQuietHeading_of_unchanged hrelease' hi htext (hdates date List.mem_cons_self) hfirst

theorem generateAll_repeated_plain :
    let q := { plainRequest with force := true, generatedAt := some "2024-02-29" }
    let after := sideBySide { plainInstaller with generatedAt := some "2024-02-29" }.script
    generate Remote.unreachable (sideBySide "") q = (.ok (.wrote "install.sh"), after) ∧
      generateAll Remote.unreachable after [q.repeated none, q.repeated (some "today")] =
        ([.ok (.unchanged "install.sh"), .ok (.unchanged "install.sh")], after) := by
  intro q after
  have hfile : ∀ file ∈ q.file, Store.place file ≠ Store.place "install.sh" := by decide +kernel
  have hwrote : generate Remote.unreachable (sideBySide "") q =
      (.ok (.wrote "install.sh"), after) := generate_plain_of_isDue rfl
  have hdates : ∀ date ∈ [none, some "today"], IsDate date := by decide
  have hdate : IsDate q.generatedAt := by decide
  obtain ⟨release, i, -, -, -, hall, -⟩ := generateAll_repeated hfile hwrote hdates
  exact ⟨hwrote, hall hdate⟩

/-- A date of two lines does not stay within its remark, so the next run writes the file again. -/
theorem date_of_two_lines_written_again :
    let q := { plainRequest with force := true, generatedAt := some "a\nb" }
    let after := sideBySide { plainInstaller with generatedAt := some "a\nb" }.script
    generate Remote.unreachable (sideBySide "") q = (.ok (.wrote "install.sh"), after) ∧
      generate Remote.unreachable after (q.repeated none) =
        (.ok (.wrote "install.sh"), sideBySide { plainInstaller with generatedAt := none }.script) := by
  intro q after
  have hnot : ¬ HasQuietHeading { plainInstaller with generatedAt := some "a\nb" } := by
    decide +kernel
  have hdiffers : substance { plainInstaller with generatedAt := some "a\nb" }.script.toList ≠
      substance { plainInstaller with generatedAt := none }.script.toList := by
    intro hsame
    exact hnot ((substance_redated_iff rfl (by decide : IsDate none)).mp hsame)
  exact ⟨generate_plain_of_isDue rfl, generate_plain_of_isDue (isDue_plain hdiffers)⟩

end ReleaseInstaller.Generation
