import ReleaseInstaller.Generation.Basic
import ReleaseInstaller.Proofs.Except
import ReleaseInstaller.Proofs.Store.Writing

/-! When a file on disk passes a check, and when it is written. -/
namespace ReleaseInstaller.Generation
open Script

variable {s s' : Store} {path existing generated : String}

/-- The file does what the script does, but a check tells them apart. -/
def DiffersInRemarks (s : Store) (path generated : String) : Prop :=
  ∃ existing ∈ s.text? path, substance existing.toList = substance generated.toList ∧
    comparable existing.toList ≠ comparable generated.toList

theorem differsInRemarks_iff (h : s.text? path = some existing) :
    DiffersInRemarks s path generated ↔ substance existing.toList = substance generated.toList ∧
      comparable existing.toList ≠ comparable generated.toList := by
  constructor
  · rintro ⟨other, hother, hdiffers⟩
    obtain rfl := Option.some.inj (h.symm.trans hother)
    exact hdiffers
  · intro hdiffers
    exact ⟨existing, h, hdiffers⟩

theorem read_eq_ok_iff : read s path = .ok existing ↔ s.text? path = some existing := by
  unfold read
  split <;> simp [*]

theorem difference?_eq_none_iff : difference? path existing generated = none ↔
    comparable existing.toList = comparable generated.toList := by
  unfold difference? Diff.unified?
  split <;> simp [*]

/-- A check of a file that is there looks at nothing but its text. -/
theorem check_of_text? (h : s.text? path = some existing) : check s path generated =
    match difference? path existing generated with
    | some difference => .error (.outOfDate path difference)
    | none => .ok () := by
  have hcontains := Store.contains_of_text? h
  have hread := read_eq_ok_iff.mpr h
  rw [check, if_pos hcontains, hread]
  rfl

theorem check_eq_ok (h : s.text? path = some existing)
    (heq : comparable existing.toList = comparable generated.toList) :
    check s path generated = .ok () := by
  rw [check_of_text? h, difference?_eq_none_iff.mpr heq]

theorem check_eq_error (h : s.text? path = some existing)
    (hne : comparable existing.toList ≠ comparable generated.toList) :
    ∃ difference, check s path generated = .error (.outOfDate path difference) := by
  rw [check_of_text? h]
  cases hd : difference? path existing generated with
  | none => exact absurd (difference?_eq_none_iff.mp hd) hne
  | some difference => exact ⟨difference, rfl⟩

/-- A file that is not there is looked at as an empty one. -/
theorem check_of_not_contains (h : s.contains path = false) : check s path generated =
    match difference? path "" generated with
    | some difference => .error (.outOfDate path difference)
    | none => .ok () := by
  rw [check, if_neg (Bool.eq_false_iff.mp h)]
  rfl

theorem judged_eq_ok_iff {found : Option String} :
    (match found with
      | some difference => Except.error (.outOfDate path difference)
      | none => .ok () : Except Failure Unit) = .ok () ↔ found = none := by
  cases found <;> simp

theorem check_eq_ok_iff : check s path generated = .ok () ↔ ∃ existing,
    (existing ∈ s.text? path ∨ s.contains path = false ∧ existing = "") ∧
      difference? path existing generated = none := by
  constructor
  · intro h
    cases hcontains : s.contains path with
    | true =>
      have hread := h
      rw [check, if_pos hcontains] at hread
      obtain ⟨existing, htext, -⟩ := bind_eq_ok.mp hread
      have htext' := read_eq_ok_iff.mp htext
      rw [check_of_text? htext', judged_eq_ok_iff] at h
      exact ⟨existing, .inl htext', h⟩
    | false =>
      rw [check_of_not_contains hcontains, judged_eq_ok_iff] at h
      exact ⟨"", .inr ⟨rfl, rfl⟩, h⟩
  · rintro ⟨existing, htext | ⟨hcontains, rfl⟩, hnone⟩
    · rw [check_of_text? htext, hnone]
    · rw [check_of_not_contains hcontains, hnone]

/-- Whether a file that is there has to be written depends on nothing but its text. -/
theorem shouldWrite_of_text? (h : s.text? path = some existing) : shouldWrite s path generated =
    .ok (substance existing.toList != substance generated.toList) := by
  have hcontains := Store.contains_of_text? h
  have hread := read_eq_ok_iff.mpr h
  rw [shouldWrite, if_pos hcontains, hread]
  rfl

/-- Only a file that does what the script does is left alone. -/
theorem shouldWrite_eq_false_iff : shouldWrite s path generated = .ok false ↔
    ∃ existing ∈ s.text? path, substance existing.toList = substance generated.toList := by
  unfold shouldWrite
  split
  · rw [bind_eq_ok]
    constructor
    · rintro ⟨existing, hread, hsame⟩
      have hsame' := Except.ok.inj hsame
      rw [bne_eq_false_iff_eq] at hsame'
      exact ⟨existing, read_eq_ok_iff.mp hread, hsame'⟩
    · rintro ⟨existing, htext, hsame⟩
      refine ⟨existing, read_eq_ok_iff.mpr htext, ?_⟩
      rw [bne_eq_false_iff_eq.mpr hsame]
      rfl
  · rename_i hcontains
    constructor
    · intro h
      cases h
    · rintro ⟨existing, htext, -⟩
      exact absurd (Store.contains_of_text? htext) hcontains

/-- A file is worth writing if it is not there, or if it does something else. -/
theorem shouldWrite_eq_true (h : shouldWrite s path generated = .ok true) :
    s.contains path = false ∨
      ∃ existing ∈ s.text? path, substance existing.toList ≠ substance generated.toList := by
  unfold shouldWrite at h
  split at h
  · obtain ⟨existing, hread, hdiffers⟩ := bind_eq_ok.mp h
    have hdiffers' := Except.ok.inj hdiffers
    rw [bne_iff_ne] at hdiffers'
    exact .inr ⟨existing, read_eq_ok_iff.mp hread, hdiffers'⟩
  · rename_i hcontains
    exact .inl (Bool.eq_false_iff.mpr hcontains)

end ReleaseInstaller.Generation
