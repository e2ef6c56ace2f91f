import ReleaseInstaller.Generation.Run
import ReleaseInstaller.Proofs.Except
import ReleaseInstaller.Proofs.Generation.Output

/-! Runs, taken apart: what is read until there is a script, and what becomes of the script. -/
namespace ReleaseInstaller.Generation
open Script Installer

variable {server : Remote.Server} {s s' : Store} {q : Request} {path generated : String}

/-- A file is left alone only if it does the same and nobody insists. -/
theorem isDue_eq_false_iff : isDue s q path generated = .ok false ↔ q.force = false ∧
    ∃ existing ∈ s.text? path, substance existing.toList = substance generated.toList := by
  unfold isDue
  rw [← shouldWrite_eq_false_iff]
  cases q.force with
  | true => simp
  | false => simp

/-- What can become of a generated script, with the directory tree after it. -/
inductive Delivered (s : Store) (q : Request) (generated : String) :
    Except Failure Outcome → Store → Prop where
  | printed (hout : q.output = none) : Delivered s q generated (.ok (.script generated)) s
  | upToDate {path : String} (hout : q.output = some path) (hcheck : q.check = true)
      (hsame : check s path generated = .ok ()) : Delivered s q generated (.ok (.upToDate path)) s
  | outOfDate {path : String} {failure : Failure} (hout : q.output = some path)
      (hcheck : q.check = true) (hdiffers : check s path generated = .error failure) :
      Delivered s q generated (.error failure) s
  | unreadable {path : String} {failure : Failure} (hout : q.output = some path)
      (hcheck : q.check = false) (hdue : isDue s q path generated = .error failure) :
      Delivered s q generated (.error failure) s
  | leftAlone {path : String} (hout : q.output = some path) (hcheck : q.check = false)
      (hdue : isDue s q path generated = .ok false) :
      Delivered s q generated (.ok (.unchanged path)) s
  | wrote {path : String} {s' : Store} (hout : q.output = some path) (hcheck : q.check = false)
      (hdue : isDue s q path generated = .ok true)
      (hwrite : s.write path (.text generated) = .ok s') :
      Delivered s q generated (.ok (.wrote path)) s'
  | unnamed {path : String} (hout : q.output = some path) (hcheck : q.check = false)
      (hdue : isDue s q path generated = .ok true)
      (hwrite : s.write path (.text generated) = .error .noFileName) :
      Delivered s q generated (.error (.noFileName path)) s
  | blocked {path : String} {left : Store} (hout : q.output = some path) (hcheck : q.check = false)
      (hdue : isDue s q path generated = .ok true)
      (hwrite : s.write path (.text generated) = .error (.refused left)) :
      Delivered s q generated (.error (.unwritable path)) left

theorem deliver_of_check (hout : q.output = some path) (hcheck : q.check = true) :
    deliver q generated s = ((check s path generated).map fun _ => .upToDate path, s) := by
  unfold deliver
  simp only [hout, hcheck, if_true]
  rw [bind_pure_comp]
  rfl

theorem deliver_of_isDue (hout : q.output = some path) (hcheck : q.check = false) :
    deliver q generated s = match isDue s q path generated with
      | .ok true => ((write path generated s).1.map fun _ => .wrote path, (write path generated s).2)
      | .ok false => (.ok (.unchanged path), s)
      | .error failure => (.error failure, s) := by
  unfold deliver
  simp only [hout, hcheck, Bool.false_eq_true, if_false]
  rw [look_bind]
  cases isDue s q path generated with
  | error failure => rfl
  | ok due =>
    cases due with
    | true => exact bind_pure_comp (write path generated) (fun _ => Outcome.wrote path) s
    | false => rfl

theorem delivered_deliver (s : Store) (q : Request) (generated : String) :
    Delivered s q generated (deliver q generated s).1 (deliver q generated s).2 := by
  cases hout : q.output with
  | none =>
    unfold deliver
    rw [hout]
    exact .printed hout
  | some path =>
    cases hcheck : q.check with
    | true =>
      rw [deliver_of_check hout hcheck]
      cases hchecked : check s path generated with
      | error failure => exact .outOfDate hout hcheck hchecked
      | ok _ => exact .upToDate hout hcheck hchecked
    | false =>
      rw [deliver_of_isDue hout hcheck]
      cases hdue : isDue s q path generated with
      | error failure => exact .unreadable hout hcheck hdue
      | ok due =>
        cases due with
        | false => exact .leftAlone hout hcheck hdue
        | true =>
          unfold write
          cases hwrite : s.write path (.text generated) with
          | ok s' => exact .wrote hout hcheck hdue hwrite
          | error fault =>
            cases fault with
            | noFileName => exact .unnamed hout hcheck hdue hwrite
            | refused left => exact .blocked hout hcheck hdue hwrite

theorem delivered {answer : Except Failure Outcome} (h : deliver q generated s = (answer, s')) :
    Delivered s q generated answer s' := by
  have hd := delivered_deliver s q generated
  rwa [h] at hd

theorem load_congr {file : String} {project : Project} (h : load s file = .ok project)
    (hfile : ∀ text, s.text? file = some text → s'.text? file = some text) :
    load s' file = .ok project := by
  unfold load at h ⊢
  obtain ⟨text, hread, hproject⟩ := bind_eq_ok.mp h
  have hread' := read_eq_ok_iff.mpr (hfile text (read_eq_ok_iff.mp hread))
  exact bind_eq_ok.mpr ⟨text, hread', hproject⟩

/-- Two requests name the same description and the same repository. -/
structure Request.SameSource (q q' : Request) : Prop where
  file : q'.file = q.file
  repo : q'.repo = q.repo
  configName : q'.configName = q.configName

/-- A release is the same for all stores that hold its description, whatever is made of it. -/
theorem loadRelease_congr {q' : Request} {release : Release} (hq : q.SameSource q')
    (h : loadRelease server s q = .ok release)
    (hfile : ∀ file ∈ q.file, ∀ text, s.text? file = some text → s'.text? file = some text) :
    loadRelease server s' q' = .ok release := by
  unfold loadRelease at h ⊢
  obtain ⟨repo, hrepo, h⟩ := bind_eq_ok.mp h
  obtain ⟨project, hproject, h⟩ := bind_eq_ok.mp h
  rw [hq.repo]
  refine bind_eq_ok.mpr ⟨repo, hrepo, bind_eq_ok.mpr ⟨project, ?_, h⟩⟩
  unfold loadProject at hproject ⊢
  rw [hq.file, hq.configName]
  cases hf : q.file with
  | none =>
    rw [hf] at hproject
    cases repo with
    | none => contradiction
    | some repo => exact hproject
  | some file =>
    rw [hf] at hproject
    exact load_congr hproject (hfile file hf)

/-- The script for a request, as far as it can be made. -/
def scriptFor (server : Remote.Server) (s : Store) (q : Request) : Except Failure String := do
  let release ← loadRelease server s q
  let installer ← (ofRelease release q.generatedAt).mapError .installer
  return installer.script

theorem perform_eq (server : Remote.Server) (q : Request) (s : Store) : perform server q s =
    match loadRelease server s q with
    | .error failure => (.error failure, s)
    | .ok release =>
      match ofRelease release q.generatedAt with
      | .error fault => (.error (.installer fault), s)
      | .ok i =>
        ((deliver q i.script s).1.map (Success.mk release i), (deliver q i.script s).2) := by
  unfold perform
  rw [look_bind]
  cases loadRelease server s q with
  | error failure => rfl
  | ok release =>
    simp only [look_bind]
    cases ofRelease release q.generatedAt with
    | error fault => rfl
    | ok i => exact bind_pure_comp (deliver q i.script) (Success.mk release i) s

/-- Until there is a script, a run only looks at the directory tree. -/
theorem generate_eq (server : Remote.Server) (s : Store) (q : Request) : generate server s q =
    match scriptFor server s q with
    | .error failure => (.error failure, s)
    | .ok script => deliver q script s := by
  unfold generate scriptFor
  rw [perform_eq]
  cases loadRelease server s q with
  | error failure => rfl
  | ok release =>
    simp only [bind, Except.bind]
    cases ofRelease release q.generatedAt with
    | error fault => rfl
    | ok i =>
      simp only [Except.mapError, pure, Except.pure]
      obtain ⟨answer, s'⟩ := deliver q i.script s
      cases answer <;> rfl

theorem scriptFor_eq_ok_iff {script : String} : scriptFor server s q = .ok script ↔
    ∃ release i, loadRelease server s q = .ok release ∧ ofRelease release q.generatedAt = .ok i ∧
      i.script = script := by
  unfold scriptFor
  constructor
  · intro h
    obtain ⟨release, hrelease, h⟩ := bind_eq_ok.mp h
    obtain ⟨i, hi, h⟩ := bind_eq_ok.mp h
    exact ⟨release, i, hrelease, mapError_eq_ok.mp hi, Except.ok.inj h⟩
  · rintro ⟨release, i, hrelease, hi, rfl⟩
    exact bind_eq_ok.mpr ⟨release, hrelease, bind_eq_ok.mpr ⟨i, mapError_eq_ok.mpr hi, rfl⟩⟩

theorem generate_of_installer {release : Release} {i : Installer}
    (hrelease : loadRelease server s q = .ok release)
    (hi : ofRelease release q.generatedAt = .ok i) : generate server s q = deliver q i.script s := by
  rw [generate_eq, scriptFor_eq_ok_iff.mpr ⟨release, i, hrelease, hi, rfl⟩]

variable {r : Success}

theorem attempt_eq_ok_iff : attempt server s q = .ok r ↔
    loadRelease server s q = .ok r.release ∧
      ofRelease r.release q.generatedAt = .ok r.installer ∧
      (deliver q r.installer.script s).1 = .ok r.outcome := by
  unfold attempt
  rw [perform_eq]
  constructor
  · intro h
    cases hrelease : loadRelease server s q with
    | error failure =>
      rw [hrelease] at h
      contradiction
    | ok release =>
      cases hi : ofRelease release q.generatedAt with
      | error fault =>
        simp only [hrelease, hi] at h
        contradiction
      | ok i =>
        simp only [hrelease, hi] at h
        obtain ⟨outcome, houtcome, rfl⟩ := map_eq_ok.mp h
        exact ⟨rfl, hi, houtcome⟩
  · rintro ⟨hrelease, hi, hdeliver⟩
    simp only [hrelease, hi, hdeliver]
    rfl

/-- An attempt that goes well is a run that goes well. -/
theorem generate_of_attempt (h : attempt server s q = .ok r) : ∃ s',
    deliver q r.installer.script s = (.ok r.outcome, s') ∧
      generate server s q = (.ok r.outcome, s') := by
  obtain ⟨hrelease, hi, hdeliver⟩ := attempt_eq_ok_iff.mp h
  have hd : deliver q r.installer.script s = (.ok r.outcome, (deliver q r.installer.script s).2) :=
    Prod.ext hdeliver rfl
  exact ⟨_, hd, (generate_of_installer hrelease hi).trans hd⟩

end ReleaseInstaller.Generation
