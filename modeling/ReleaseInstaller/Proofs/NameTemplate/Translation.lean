import ReleaseInstaller.NameTemplate.Basic
import ReleaseInstaller.Proofs.Except

/-! What comes of a name template. An accepted one becomes a word of inert characters and references to
known variables. A refused one is refused for its form, or else for its first conditional, or else for
its first node without a spelling. -/
namespace ReleaseInstaller.NameTemplate
open Text Shell

/-- The shell takes the node over: a known field, or text that means nothing to the shell. -/
def Node.HasSpelling : Node → Prop
  | literal text _ => ∀ c ∈ text, isWordChar c = true
  | field .. => True
  | _ => False

/-- What the shell is given for such a node. -/
def Node.spelling : Node → List Char
  | literal text _ => text
  | field f _ => f.reference
  | _ => []

/-- Why a node that is no conditional has no spelling. -/
inductive Node.HasFault : Node → Fault → Prop
  | unsafeChar {before after : List Char} {c : Char} {s : Span}
      (hb : ∀ x ∈ before, isWordChar x = true) (hc : isWordChar c = false) :
      HasFault (literal (before ++ c :: after) s) (.unsafeChar c)
  | unknownField {name : List Char} {s : Span} : HasFault (unknown name s) (.unknownField name)
  | unsupportedAction {action : List Char} {s : Span} :
      HasFault (unsupported action s) (.unsupportedAction action)

/-- Words of characters that mean nothing to the shell, and of references to the variables of fields. -/
inductive IsExpression : List Char → Prop
  | nil : IsExpression []
  | inert {c : Char} {rest : List Char} (hc : isWordChar c = true) (h : IsExpression rest) :
      IsExpression (c :: rest)
  | reference (f : Field) {rest : List Char} (h : IsExpression rest) :
      IsExpression (f.reference ++ rest)

theorem IsExpression.append {s t : List Char} (hs : IsExpression s) (ht : IsExpression t) :
    IsExpression (s ++ t) := by
  induction hs with
  | nil => exact ht
  | inert hc _ ih => exact .inert hc ih
  | reference f _ ih => simpa only [List.append_assoc] using IsExpression.reference f ih

theorem IsExpression.of_inert {s : List Char} (h : ∀ c ∈ s, isWordChar c = true) :
    IsExpression s := by
  induction s with
  | nil => exact .nil
  | cons c s ih => exact .inert (h c (by simp)) (ih fun x hx => h x (by simp [hx]))

theorem Node.HasSpelling.isExpression {n : Node} (h : n.HasSpelling) :
    IsExpression n.spelling := by
  cases n with
  | literal text s => exact .of_inert h
  | field f s => simpa only [spelling, List.append_nil] using IsExpression.reference f .nil
  | arm s => exact h.elim
  | unknown name s => exact h.elim
  | conditional condition body otherwise s => exact h.elim
  | unsupported action s => exact h.elim

theorem isExpression_flatMap_spelling {nodes : List Node} (h : ∀ n ∈ nodes, n.HasSpelling) :
    IsExpression (nodes.flatMap Node.spelling) := by
  induction nodes with
  | nil => exact .nil
  | cons n nodes ih =>
    rw [List.flatMap_cons]
    exact (h n (by simp)).isExpression.append (ih fun m hm => h m (by simp [hm]))

namespace Node

theorem HasSpelling.isConditional_eq_false {n : Node} (h : n.HasSpelling) :
    n.isConditional = false := by
  cases n <;> first | rfl | exact h.elim

theorem HasFault.isConditional_eq_false {n : Node} {fault : Fault} (h : n.HasFault fault) :
    n.isConditional = false := by
  cases h <;> rfl

theorem HasFault.ne_conditional {n : Node} {fault : Fault} (h : n.HasFault fault) :
    fault ≠ .conditional := by
  cases h <;> simp

theorem toShell_of_hasSpelling {n : Node} (h : n.HasSpelling) : n.toShell = .ok n.spelling := by
  cases n with
  | literal text s =>
    have hf : (text.find? fun c => !isWordChar c) = none := by
      rw [List.find?_eq_none]
      intro c hc
      simpa using h c hc
    simp only [toShell, hf, spelling]
  | field f s => rfl
  | arm s => exact h.elim
  | unknown name s => exact h.elim
  | conditional condition body otherwise s => exact h.elim
  | unsupported action s => exact h.elim

theorem toShell_of_hasFault {n : Node} {fault : Fault} (h : n.HasFault fault) :
    n.toShell = .error fault := by
  cases h with
  | @unsafeChar before after c s hb hc =>
    have hf : ((before ++ c :: after).find? fun x => !isWordChar x) = some c := by
      rw [List.find?_eq_some_iff_append]
      exact ⟨by simpa using hc, before, after, rfl, by simpa using hb⟩
    simp only [toShell, hf]
  | unknownField => rfl
  | unsupportedAction => rfl

/-- A node has a spelling, has a fault, or is a conditional. -/
theorem spelling_or_fault (n : Node) :
    n.HasSpelling ∨ (∃ fault, n.HasFault fault) ∨ n.isConditional = true := by
  cases n with
  | literal text s =>
    cases hf : text.find? fun c => !isWordChar c with
    | none =>
      left
      intro c hc
      simpa using List.find?_eq_none.mp hf c hc
    | some c =>
      obtain ⟨hc, before, after, rfl, hb⟩ := List.find?_eq_some_iff_append.mp hf
      exact .inr (.inl ⟨_, .unsafeChar (by simpa using hb) (by simpa using hc)⟩)
  | field f s => exact .inl trivial
  | arm s => exact .inr (.inr rfl)
  | unknown name s => exact .inr (.inl ⟨_, .unknownField⟩)
  | conditional condition body otherwise s => exact .inr (.inr rfl)
  | unsupported action s => exact .inr (.inl ⟨_, .unsupportedAction⟩)

theorem allToShell_of_hasSpelling {nodes : List Node} (h : ∀ n ∈ nodes, n.HasSpelling) :
    allToShell nodes = .ok (nodes.flatMap spelling) := by
  induction nodes with
  | nil => rfl
  | cons n nodes ih =>
    have hn := toShell_of_hasSpelling (h n (by simp))
    have hr := ih fun m hm => h m (by simp [hm])
    simp only [allToShell, hn, hr, Except.map, List.flatMap_cons]

/-- Only the nodes before the first fault have to be looked at. -/
theorem allToShell_of_hasFault {before after : List Node} {n : Node} {fault : Fault}
    (hb : ∀ m ∈ before, m.HasSpelling) (hn : n.HasFault fault) :
    allToShell (before ++ n :: after) = .error (fault, n.span) := by
  induction before with
  | nil => simp only [List.nil_append, allToShell, toShell_of_hasFault hn]
  | cons m before ih =>
    have hm := toShell_of_hasSpelling (hb m (by simp))
    have hr := ih fun x hx => hb x (by simp [hx])
    simp only [List.cons_append, allToShell, hm, hr, Except.map]

/-- Without conditionals, either every node has a spelling or there is a first one with a fault. -/
theorem spelling_or_first_fault {nodes : List Node} (h : ∀ n ∈ nodes, n.isConditional = false) :
    (∀ n ∈ nodes, n.HasSpelling) ∨ ∃ before n after fault, nodes = before ++ n :: after ∧
      (∀ m ∈ before, m.HasSpelling) ∧ n.HasFault fault := by
  induction nodes with
  | nil => simp
  | cons n nodes ih =>
    rcases n.spelling_or_fault with hn | ⟨fault, hn⟩ | hn
    · rcases ih fun m hm => h m (by simp [hm]) with hr | ⟨before, m, after, fault, rfl, hb, hm⟩
      · left
        simpa using ⟨hn, hr⟩
      · exact .inr ⟨n :: before, m, after, fault, rfl, by simpa using ⟨hn, hb⟩, hm⟩
    · exact .inr ⟨[], n, nodes, fault, rfl, by simp, hn⟩
    · rw [h n (by simp)] at hn
      contradiction

end Node

theorem parse_error_malformed {template : String} {r : Refusal} (h : parse template = .error r) :
    ∃ reason span, r = ⟨template, .malformed reason, span⟩ := by
  unfold parse at h
  dsimp only at h
  split at h
  · exact ⟨_, _, (Except.error.inj h).symm⟩
  · split at h
    · exact ⟨_, _, (Except.error.inj h).symm⟩
    · contradiction

theorem parse_source {template : String} {t : NameTemplate} (h : parse template = .ok t) :
    t.source = template := by
  unfold parse at h
  dsimp only at h
  split at h
  · contradiction
  · split at h
    · contradiction
    · rw [← Except.ok.inj h]

theorem rejectConditionals_of_none {t : NameTemplate}
    (h : ∀ n ∈ t.nodes, n.isConditional = false) : t.rejectConditionals = .ok () := by
  have hf : t.nodes.find? Node.isConditional = none := by
    rw [List.find?_eq_none]
    intro n hn
    simp [h n hn]
  simp only [rejectConditionals, hf]

theorem rejectConditionals_of_first {t : NameTemplate} {before after : List Node} {n : Node}
    (ht : t.nodes = before ++ n :: after) (hb : ∀ m ∈ before, m.isConditional = false)
    (hn : n.isConditional = true) :
    t.rejectConditionals = .error ⟨t.source, .conditional, n.span⟩ := by
  have hf : t.nodes.find? Node.isConditional = some n := by
    rw [List.find?_eq_some_iff_append]
    exact ⟨hn, before, after, ht, by simpa using hb⟩
  simp only [rejectConditionals, hf]

/-- The nodes hold no conditional, or there is a first one. -/
theorem conditional_or_none (nodes : List Node) :
    (∀ n ∈ nodes, n.isConditional = false) ∨ ∃ before n after, nodes = before ++ n :: after ∧
      (∀ m ∈ before, m.isConditional = false) ∧ n.isConditional = true := by
  cases hf : nodes.find? Node.isConditional with
  | none =>
    left
    intro n hn
    simpa using List.find?_eq_none.mp hf n hn
  | some n =>
    obtain ⟨hn, before, after, he, hb⟩ := List.find?_eq_some_iff_append.mp hf
    exact .inr ⟨before, n, after, he, by simpa using hb, hn⟩

/-- The refusals of a template, each with the condition for it. A conditional that folding leaves is
reported before any other fault, wherever the two stand. -/
inductive Refuses (template : String) : Refusal → Prop
  | malformed {reason : Malformation} {s : Span}
      (h : parse template = .error ⟨template, .malformed reason, s⟩) :
      Refuses template ⟨template, .malformed reason, s⟩
  | conditional {t : NameTemplate} {before after : List Node} {n : Node}
      (ht : parse template = .ok t) (hs : t.foldArmSuffixes.nodes = before ++ n :: after)
      (hb : ∀ m ∈ before, m.isConditional = false) (hn : n.isConditional = true) :
      Refuses template ⟨template, .conditional, n.span⟩
  | fault {t : NameTemplate} {before after : List Node} {n : Node} {fault : Fault}
      (ht : parse template = .ok t) (hs : t.foldArmSuffixes.nodes = before ++ n :: after)
      (hnone : ∀ m ∈ t.foldArmSuffixes.nodes, m.isConditional = false)
      (hb : ∀ m ∈ before, m.HasSpelling) (hn : n.HasFault fault) :
      Refuses template ⟨template, fault, n.span⟩

section Assign
variable {target template : String}

theorem assign_of_parse_error {r : Refusal} (h : parse template = .error r) :
    assign target template = .error r := by
  simp only [assign, h, bind, Except.bind]

theorem assign_of_parse {t : NameTemplate} (h : parse template = .ok t) :
    assign target template = t.foldArmSuffixes.rejectConditionals.bind fun _ =>
      t.foldArmSuffixes.toShell.bind fun expression => .ok ⟨target, expression⟩ := by
  simp only [assign, h, bind, Except.bind, pure, Except.pure]

theorem assign_of_hasSpelling {t : NameTemplate} (ht : parse template = .ok t)
    (h : ∀ n ∈ t.foldArmSuffixes.nodes, n.HasSpelling) : assign target template =
      .ok ⟨target, String.ofList (t.foldArmSuffixes.nodes.flatMap Node.spelling)⟩ := by
  have hr := rejectConditionals_of_none fun n hn => (h n hn).isConditional_eq_false
  rw [assign_of_parse ht, hr]
  simp only [toShell, Node.allToShell_of_hasSpelling h, Except.bind]

theorem assign_of_refuses {r : Refusal} (h : Refuses template r) :
    assign target template = .error r := by
  cases h with
  | malformed h => exact assign_of_parse_error h
  | conditional ht hs hb hn =>
    rw [assign_of_parse ht, rejectConditionals_of_first hs hb hn]
    simp only [Except.bind, foldArmSuffixes, parse_source ht]
  | fault ht hs hnone hb hn =>
    rw [assign_of_parse ht, rejectConditionals_of_none hnone]
    simp only [toShell, hs, Node.allToShell_of_hasFault hb hn, Except.bind]
    simp only [foldArmSuffixes, parse_source ht]

/-- A template is refused, or it has a tree whose nodes all have a spelling once it is folded. -/
theorem refuses_or_hasSpelling (template : String) : (∃ r, Refuses template r) ∨
    ∃ t, parse template = .ok t ∧ ∀ n ∈ t.foldArmSuffixes.nodes, n.HasSpelling := by
  cases ht : parse template with
  | error r =>
    obtain ⟨reason, s, rfl⟩ := parse_error_malformed ht
    exact .inl ⟨_, .malformed ht⟩
  | ok t =>
    rcases conditional_or_none t.foldArmSuffixes.nodes with hnone | ⟨before, n, after, hs, hb, hn⟩
    · rcases Node.spelling_or_first_fault hnone with h | ⟨before, n, after, fault, hs, hb, hn⟩
      · exact .inr ⟨t, rfl, h⟩
      · exact .inl ⟨_, .fault ht hs hnone hb hn⟩
    · exact .inl ⟨_, .conditional ht hs hb hn⟩

theorem assign_eq_ok_iff {a : Assignment} : assign target template = .ok a ↔
    ∃ t, parse template = .ok t ∧ (∀ n ∈ t.foldArmSuffixes.nodes, n.HasSpelling) ∧
      a = ⟨target, String.ofList (t.foldArmSuffixes.nodes.flatMap Node.spelling)⟩ := by
  constructor
  · intro h
    rcases refuses_or_hasSpelling template with ⟨r, hr⟩ | ⟨t, ht, hn⟩
    · rw [assign_of_refuses hr] at h
      contradiction
    · rw [assign_of_hasSpelling ht hn] at h
      exact ⟨t, ht, hn, (Except.ok.inj h).symm⟩
  · rintro ⟨t, ht, hn, rfl⟩
    exact assign_of_hasSpelling ht hn

theorem assign_eq_error_iff {r : Refusal} :
    assign target template = .error r ↔ Refuses template r := by
  constructor
  · intro h
    rcases refuses_or_hasSpelling template with ⟨r', hr⟩ | ⟨t, ht, hn⟩
    · rw [assign_of_refuses hr] at h
      rwa [← Except.error.inj h]
    · rw [assign_of_hasSpelling ht hn] at h
      contradiction
  · exact assign_of_refuses

end Assign

/-- Once no conditional is left, the spelling of the nodes reports none. -/
theorem toShell_ne_conditional {t : NameTemplate} {r : Refusal}
    (hr : t.rejectConditionals = .ok ()) (h : t.toShell = .error r) : r.fault ≠ .conditional := by
  rcases conditional_or_none t.nodes with hnone | ⟨before, n, after, hs, hb, hn⟩
  · rcases Node.spelling_or_first_fault hnone with hn | ⟨before, n, after, fault, hs, hb, hn⟩
    · simp only [toShell, Node.allToShell_of_hasSpelling hn] at h
      contradiction
    · simp only [toShell, hs, Node.allToShell_of_hasFault hb hn] at h
      rw [← Except.error.inj h]
      exact hn.ne_conditional
  · rw [rejectConditionals_of_first hs hb hn] at hr
    contradiction

/-- Translation is exact: which templates are accepted and as what expression, which refusal each of
the others gets, and that the spelling of nodes never is what refuses a conditional. -/
theorem assign_exact (target template : String) :
    (∀ a, assign target template = .ok a ↔
      ∃ t, parse template = .ok t ∧ (∀ n ∈ t.foldArmSuffixes.nodes, n.HasSpelling) ∧
        a = ⟨target, String.ofList (t.foldArmSuffixes.nodes.flatMap Node.spelling)⟩) ∧
    (∀ a, assign target template = .ok a → IsExpression a.expression.toList) ∧
    (∀ r, assign target template = .error r ↔ Refuses template r) ∧
    ∀ t r, parse template = .ok t → t.foldArmSuffixes.rejectConditionals = .ok () →
      t.foldArmSuffixes.toShell = .error r → r.fault ≠ .conditional := by
  refine ⟨fun a => assign_eq_ok_iff, ?_, fun r => assign_eq_error_iff, ?_⟩
  · intro a h
    obtain ⟨t, -, hn, rfl⟩ := assign_eq_ok_iff.mp h
    rw [String.toList_ofList]
    exact isExpression_flatMap_spelling hn
  · intro t r _ hr h
    exact toShell_ne_conditional hr h

/-- A template with all fields, and an ARM suffix after the architecture. -/
def fieldsTemplate : String :=
  "\x7b\x7b .ProjectName \x7d\x7d_\x7b\x7b .Binary \x7d\x7d-\x7b\x7b .Version \x7d\x7d:" ++
    "\x7b\x7b .Tag \x7d\x7d+\x7b\x7b .Os \x7d\x7d.\x7b\x7b .Arch \x7d\x7d" ++
    "\x7b\x7b if .Arm \x7d\x7dv\x7b\x7b .Arm \x7d\x7d\x7b\x7b end \x7d\x7d"

/-- A template whose conditional depends on another field. A blank stands before it. -/
def systemTemplate : String := "a b\x7b\x7b if .Os \x7d\x7dx\x7b\x7b end \x7d\x7d"

/-- A reference stands where each field is, and nothing where the ARM suffix is; and the blank is not
what the other template is refused for. -/
theorem assign_exact_references :
    let expression := "$\x7bPROJECT_NAME\x7d_$\x7bBINARY\x7d-$\x7bVERSION\x7d:$\x7bTAG\x7d" ++
      "+$\x7bOS\x7d.$\x7bARCH\x7d"
    assign "NAME=" fieldsTemplate = .ok ⟨"NAME=", expression⟩ ∧
      (∃ t, parse fieldsTemplate = .ok t ∧ ∀ n ∈ t.foldArmSuffixes.nodes, n.HasSpelling) ∧
      IsExpression expression.toList ∧
      Refuses systemTemplate ⟨systemTemplate, .conditional, ⟨3, 22⟩⟩ := by
  intro expression
  have hassign : assign "NAME=" fieldsTemplate = .ok ⟨"NAME=", expression⟩ := by decide +kernel
  have hrefused : assign "NAME=" systemTemplate =
      .error ⟨systemTemplate, .conditional, ⟨3, 22⟩⟩ := by decide +kernel
  obtain ⟨haccepts, hexpression, -, -⟩ := assign_exact "NAME=" fieldsTemplate
  obtain ⟨t, ht, hspelling, -⟩ := (haccepts _).mp hassign
  obtain ⟨-, -, hrefuses, -⟩ := assign_exact "NAME=" systemTemplate
  exact ⟨hassign, ⟨t, ht, hspelling⟩, hexpression _ hassign, (hrefuses _).mp hrefused⟩

end ReleaseInstaller.NameTemplate
