import ReleaseInstaller.NameTemplate.Node

/-! The text that the tree of a template stands for: fields give their values, and a conditional gives
one of its branches. -/
namespace ReleaseInstaller.NameTemplate

/-- What the fields of a template stand for. -/
structure Values where
  field : Field → String
  /-- The revision of an ARM processor, which is empty on every other platform. -/
  arm : String

/-- The value of the field that a condition names. -/
def Values.ofCondition? (v : Values) (condition : List Char) : Option String :=
  match Node.ofAction condition default with
  | .field f _ => some (v.field f)
  | .arm _ => some v.arm
  | _ => none

namespace Node

mutual

/-- What a node prints. Unknown fields and other actions, also as conditions, have no value. -/
def eval? (v : Values) : Node → Option (List Char)
  | literal text _ => some text
  | field f _ => some (v.field f).toList
  | arm _ => some v.arm.toList
  | unknown _ _ | unsupported _ _ => none
  | conditional condition body otherwise _ =>
    match v.ofCondition? condition with
    | none => none
    | some value => if value = "" then evalOtherwise? v otherwise else evalAll? v body

/-- What nodes print one after the other. -/
def evalAll? (v : Values) : List Node → Option (List Char)
  | [] => some []
  | n :: rest => (eval? v n).bind fun printed => (evalAll? v rest).map (printed ++ ·)

/-- What is printed in place of a branch that is not taken. -/
def evalOtherwise? (v : Values) : Option (List Node) → Option (List Char)
  | none => some []
  | some nodes => evalAll? v nodes

end

/-- The ARM suffix that puts a `v` before the revision. -/
def isLetteredSuffix : Node → Bool
  | conditional condition [literal text _, arm _] none _ =>
    isArmSuffix.isArmCondition condition && text == ['v']
  | _ => false

theorem isArmSuffix_of_isLetteredSuffix {n : Node} (h : n.isLetteredSuffix = true) :
    n.isArmSuffix = true := by
  unfold isLetteredSuffix at h
  split at h
  · exact h
  · contradiction

theorem isConditional_of_isArmSuffix {n : Node} (h : n.isArmSuffix = true) :
    n.isConditional = true := by
  unfold isArmSuffix at h
  split at h
  · rfl
  · rfl
  · contradiction

theorem ofCondition?_arm (v : Values) {condition : List Char}
    (h : isArmSuffix.isArmCondition condition = true) : v.ofCondition? condition = some v.arm := by
  simp only [isArmSuffix.isArmCondition, Bool.or_eq_true, beq_iff_eq] at h
  rcases h with rfl | rfl <;> rfl

/-- Without a revision, an ARM suffix prints nothing. -/
theorem eval?_armSuffix_of_empty {v : Values} (hv : v.arm = "") {n : Node}
    (h : n.isArmSuffix = true) : n.eval? v = some [] := by
  unfold isArmSuffix at h
  split at h
  · simp only [eval?, ofCondition?_arm v h, hv, if_true, evalOtherwise?]
  · rw [Bool.and_eq_true] at h
    simp only [eval?, ofCondition?_arm v h.1, hv, if_true, evalOtherwise?]
  · contradiction

/-- With a revision, an ARM suffix prints something. -/
theorem eval?_armSuffix_of_nonempty {v : Values} (hv : v.arm ≠ "") {n : Node}
    (h : n.isArmSuffix = true) : ∃ printed, n.eval? v = some printed ∧ printed ≠ [] := by
  have hl : v.arm.toList ≠ [] := by simpa using hv
  unfold isArmSuffix at h
  split at h
  · exact ⟨v.arm.toList, by simp [eval?, ofCondition?_arm v h, hv, evalAll?], hl⟩
  · rename_i text _ _ _
    rw [Bool.and_eq_true] at h
    exact ⟨text ++ v.arm.toList, by simp [eval?, ofCondition?_arm v h.1, hv, evalAll?], by simp [hv]⟩
  · contradiction

theorem eval?_letteredSuffix {v : Values} (hv : v.arm ≠ "") {n : Node}
    (h : n.isLetteredSuffix = true) : n.eval? v = some ('v' :: v.arm.toList) := by
  unfold isLetteredSuffix at h
  split at h
  · rw [Bool.and_eq_true, beq_iff_eq] at h
    simp [eval?, ofCondition?_arm v h.1, hv, evalAll?, h.2]
  · contradiction

end Node

end ReleaseInstaller.NameTemplate
