import ReleaseInstaller.Proofs.Generation.Run

/-! What a run may change on disk: nothing at all, or its output and the directories above it. -/
namespace ReleaseInstaller.Generation
open Script

variable {server : Remote.Server} {s s' : Store} {q : Request} {path script : String}

/-- The run has come to a script that it has to write: there is no file yet, the file does something
else, or the request insists. -/
structure HasToWrite (server : Remote.Server) (s : Store) (q : Request) (path script : String) :
    Prop where
  output : q.output = some path
  check : q.check = false
  made : scriptFor server s q = .ok script
  reason : q.force = true ∨ s.contains path = false ∨
    ∃ existing ∈ s.text? path, substance existing.toList ≠ substance script.toList

theorem reason_of_isDue (h : isDue s q path script = .ok true) : q.force = true ∨
    s.contains path = false ∨
      ∃ existing ∈ s.text? path, substance existing.toList ≠ substance script.toList := by
  unfold isDue at h
  split at h
  · rename_i hforce
    exact .inl hforce
  · exact .inr (shouldWrite_eq_true h)

/-- What the directory tree is after a run, by what the run comes to. -/
structure IsFramed (server : Remote.Server) (s : Store) (q : Request)
    (answer : Except Failure Outcome) (s' : Store) : Prop where
  /-- Looking at the output changes nothing, whatever comes of it. -/
  check : q.check = true → s' = s
  /-- Nothing has changed before the output is written. If that fails, there can be new directories. -/
  failure : ∀ failure, answer = .error failure → s' = s ∨
    ∃ path script, HasToWrite server s q path script ∧
      s.write path (.text script) = .error (.refused s') ∧ Store.Adds (Store.above path) s s'
  quiet : ∀ outcome, answer = .ok outcome → (∀ path, outcome ≠ .wrote path) → s' = s
  /-- The output holds the script, and elsewhere there are at most new directories above it. -/
  wrote : ∀ path, answer = .ok (.wrote path) → ∃ script, HasToWrite server s q path script ∧
    s'.text? path = some script ∧ ∀ p ≠ Store.place path, s'.find? p = s.find? p ∨
      p ∈ Store.above path ∧ s.find? p = none ∧ s'.find? p = some .directory

theorem isFramed_refl {answer : Except Failure Outcome} (h : ∀ path, answer ≠ .ok (.wrote path)) :
    IsFramed server s q answer s where
  check _ := rfl
  failure _ _ := .inl rfl
  quiet _ _ _ := rfl
  wrote path hwrote := absurd hwrote (h path)

theorem Delivered.isFramed {answer : Except Failure Outcome} (h : Delivered s q script answer s')
    (hscript : scriptFor server s q = .ok script) : IsFramed server s q answer s' := by
  cases h with
  | printed | upToDate | leftAlone | outOfDate | unreadable | unnamed =>
    apply isFramed_refl
    intro path hwrote
    cases hwrote
  | wrote hout hcheck hdue hwrite =>
    have hhas : HasToWrite server s q _ script := ⟨hout, hcheck, hscript, reason_of_isDue hdue⟩
    constructor
    · intro hcheck'
      rw [hcheck] at hcheck'
      contradiction
    · intro failure hfailure
      cases hfailure
    · intro outcome houtcome hother
      exact absurd (Except.ok.inj houtcome).symm (hother _)
    · intro path hwrote
      obtain rfl := Outcome.wrote.inj (Except.ok.inj hwrote)
      exact ⟨script, hhas, Store.text?_write hwrite, (Store.find?_write hwrite).2⟩
  | blocked hout hcheck hdue hwrite =>
    have hhas : HasToWrite server s q _ script := ⟨hout, hcheck, hscript, reason_of_isDue hdue⟩
    constructor
    · intro hcheck'
      rw [hcheck] at hcheck'
      contradiction
    · intro failure _
      exact .inr ⟨_, script, hhas, hwrite, Store.write_eq_refused hwrite⟩
    · intro outcome houtcome
      cases houtcome
    · intro path hwrote
      cases hwrote

/-- A run changes nothing before its script is to be written, and then nothing but the output and
the directories above it. A run that only looks at the output changes nothing. -/
theorem generate_isFramed (server : Remote.Server) (s : Store) (q : Request) :
    IsFramed server s q (generate server s q).1 (generate server s q).2 := by
  rw [generate_eq]
  cases hscript : scriptFor server s q with
  | error failure =>
    apply isFramed_refl
    intro path hwrote
    cases hwrote
  | ok script => exact (delivered_deliver s q script).isFramed hscript

end ReleaseInstaller.Generation
