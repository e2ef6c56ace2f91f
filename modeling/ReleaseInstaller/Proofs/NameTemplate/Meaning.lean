import ReleaseInstaller.Proofs.NameTemplate.Evaluation
import ReleaseInstaller.Proofs.NameTemplate.Translation
import ReleaseInstaller.Proofs.Shell.Expansion

/-! The shell expression of a template against the text that the template itself stands for. -/
namespace ReleaseInstaller.NameTemplate
open Shell

variable {v : Values} {env : Environment}

theorem Field.isVariableName_variableName (f : Field) :
    isVariableName f.variableName.toList = true := by
  cases f <;> decide

theorem Field.expand_reference (f : Field) (rest : List Char) :
    expand env (f.reference ++ rest) =
      (expand env rest).map ((env f.variableName).toList ++ ·) := by
  have h := Shell.expand_reference env f.isVariableName_variableName rest
  rw [String.ofList_toList] at h
  simpa only [reference, List.cons_append, List.nil_append, List.append_assoc] using h

namespace Node

/-- The shell expands the spelling of nodes to what the nodes print. -/
theorem expand_flatMap_spelling (henv : ∀ f : Field, env f.variableName = v.field f)
    {nodes : List Node} (h : ∀ n ∈ nodes, n.HasSpelling) :
    expand env (nodes.flatMap spelling) = evalAll? v nodes := by
  induction nodes with
  | nil => rfl
  | cons n nodes ih =>
    have hr := ih fun m hm => h m (by simp [hm])
    have hn := h n (by simp)
    cases n with
    | literal text s =>
      rw [List.flatMap_cons, spelling, expand_inert_append hn, hr]
      rfl
    | field f s =>
      rw [List.flatMap_cons, spelling, f.expand_reference, hr, henv]
      rfl
    | arm s => exact hn.elim
    | unknown name s => exact hn.elim
    | conditional condition body otherwise s => exact hn.elim
    | unsupported action s => exact hn.elim

theorem eval?_of_hasSpelling (v : Values) {n : Node} (h : n.HasSpelling) :
    ∃ printed, n.eval? v = some printed := by
  cases n with
  | literal text s => exact ⟨text, by simp [eval?]⟩
  | field f s => exact ⟨_, by simp [eval?]; rfl⟩
  | arm s => exact h.elim
  | unknown name s => exact h.elim
  | conditional condition body otherwise s => exact h.elim
  | unsupported action s => exact h.elim

theorem evalAll?_of_hasSpelling (v : Values) {nodes : List Node}
    (h : ∀ n ∈ nodes, n.HasSpelling) : ∃ printed, evalAll? v nodes = some printed := by
  induction nodes with
  | nil => exact ⟨[], by simp [evalAll?]⟩
  | cons n nodes ih =>
    obtain ⟨printed, hn⟩ := eval?_of_hasSpelling v (h n (by simp))
    obtain ⟨later, hr⟩ := ih fun m hm => h m (by simp [hm])
    exact ⟨printed ++ later, by simp [evalAll?, hn, hr]⟩

end Node

/-- Without a revision, the suffixes that folding leaves out print nothing. -/
theorem evalAll?_dropArmSuffixes (hv : v.arm = "") (afterArch : Bool) (nodes : List Node) :
    Node.evalAll? v (dropArmSuffixes afterArch nodes) = Node.evalAll? v nodes := by
  induction nodes generalizing afterArch with
  | nil => rfl
  | cons n nodes ih =>
    rw [dropArmSuffixes]
    split
    · rename_i hd
      rw [Bool.and_eq_true] at hd
      simp [Node.evalAll?, Node.eval?_armSuffix_of_empty hv hd.2, ih]
    · simp only [Node.evalAll?, ih]

/-- The variables of the installer, with the values of the fields. -/
def Values.environment (v : Values) : Environment
  | "OS" => v.field .os
  | "ARCH" => v.field .arch
  | "VERSION" => v.field .version
  | "TAG" => v.field .tag
  | "BINARY" => v.field .binary
  | "PROJECT_NAME" => v.field .projectName
  | _ => ""

theorem Values.environment_variableName (v : Values) (f : Field) :
    v.environment f.variableName = v.field f := by
  cases f <;> rfl

/-- A release for Linux, on an architecture with some revision. -/
def Values.onLinux (arch revision : String) : Values where
  field
    | .os => "linux"
    | .arch => arch
    | .version => "1.2.0"
    | .tag => "v1.2.0"
    | .binary => "tool"
    | .projectName => "project"
  arm := revision

section Accepted
variable {target template : String} {a : Assignment} {t : NameTemplate}

/-- The expression expands to what the template prints without a revision. -/
theorem expand_expression (h : assign target template = .ok a) (ht : parse template = .ok t)
    (hv : v.arm = "") (henv : ∀ f : Field, env f.variableName = v.field f) :
    expand env a.expression.toList = Node.evalAll? v t.nodes := by
  obtain ⟨t', ht', hn, rfl⟩ := assign_eq_ok_iff.mp h
  rw [ht] at ht'
  cases Except.ok.inj ht'
  calc expand env (String.ofList (t.foldArmSuffixes.nodes.flatMap Node.spelling)).toList
    _ = Node.evalAll? v t.foldArmSuffixes.nodes := by
      rw [String.toList_ofList, Node.expand_flatMap_spelling henv hn]
    _ = Node.evalAll? v t.nodes := evalAll?_dropArmSuffixes hv false t.nodes

theorem dropArmSuffixes_hasSpelling (h : assign target template = .ok a)
    (ht : parse template = .ok t) : ∀ n ∈ dropArmSuffixes false t.nodes, n.HasSpelling := by
  obtain ⟨t', ht', hn, -⟩ := assign_eq_ok_iff.mp h
  rw [ht] at ht'
  cases Except.ok.inj ht'
  exact hn

/-- Where there is no ARM revision, an accepted template and its expression agree: the template prints
a text for every value of its fields, and the shell expands the expression to this text. -/
theorem printed_eq_expanded (h : assign target template = .ok a) (hv : v.arm = "")
    (henv : ∀ f : Field, env f.variableName = v.field f) : ∃ t printed,
      parse template = .ok t ∧ Node.evalAll? v t.nodes = some printed ∧
        expand env a.expression.toList = some printed := by
  obtain ⟨t, ht, hn, -⟩ := assign_eq_ok_iff.mp h
  obtain ⟨printed, hp⟩ := Node.evalAll?_of_hasSpelling v hn
  have hd := (evalAll?_dropArmSuffixes hv false t.nodes).symm.trans hp
  exact ⟨t, printed, ht, hd, (expand_expression h ht hv henv).trans hd⟩

theorem printed_eq_expanded_amd64 : ∃ t printed,
    parse
        "\x7b\x7b .Os \x7d\x7d_\x7b\x7b .Arch \x7d\x7d\x7b\x7b if .Arm \x7d\x7d\x7b\x7b .Arm \x7d\x7d\x7b\x7b end \x7d\x7d\x7b\x7b/* all */ -\x7d\x7d .zip" =
        .ok t ∧
      Node.evalAll? (.onLinux "amd64" "") t.nodes = some printed ∧
      expand (Values.onLinux "amd64" "").environment "$\x7bOS\x7d_$\x7bARCH\x7d.zip".toList =
        some printed := by
  have h : assign "NAME="
      "\x7b\x7b .Os \x7d\x7d_\x7b\x7b .Arch \x7d\x7d\x7b\x7b if .Arm \x7d\x7d\x7b\x7b .Arm \x7d\x7d\x7b\x7b end \x7d\x7d\x7b\x7b/* all */ -\x7d\x7d .zip" =
      .ok ⟨"NAME=", "$\x7bOS\x7d_$\x7bARCH\x7d.zip"⟩ := by decide +kernel
  exact printed_eq_expanded h rfl (Values.environment_variableName _)

end Accepted

/-- Every architecture is directly followed by the suffix that puts a `v` before the revision. -/
def SpellsRevisions : List Node → Prop
  | [] => True
  | n :: rest =>
    (n.isArch = true → ∃ m ∈ rest.head?, m.isLetteredSuffix = true) ∧ SpellsRevisions rest

instance decidableSpellsRevisions : (nodes : List Node) → Decidable (SpellsRevisions nodes)
  | [] => inferInstanceAs (Decidable True)
  | n :: rest =>
    have := decidableSpellsRevisions rest
    inferInstanceAs (Decidable
      ((n.isArch = true → ∃ m ∈ rest.head?, m.isLetteredSuffix = true) ∧ SpellsRevisions rest))

/-- No ARM suffix directly follows another. -/
def SuffixesApart (afterSuffix : Bool) : List Node → Prop
  | [] => True
  | n :: rest =>
    (afterSuffix = true → n.isArmSuffix = false) ∧ SuffixesApart n.isArmSuffix rest

instance decidableSuffixesApart (afterSuffix : Bool) :
    (nodes : List Node) → Decidable (SuffixesApart afterSuffix nodes)
  | [] => inferInstanceAs (Decidable True)
  | n :: rest =>
    have := decidableSuffixesApart n.isArmSuffix rest
    inferInstanceAs (Decidable
      ((afterSuffix = true → n.isArmSuffix = false) ∧ SuffixesApart n.isArmSuffix rest))

/-- The values as the installer has them on an ARM processor, whose architecture holds the revision. -/
def Values.revised (v : Values) : Values where
  field f := if f = .arch then v.field .arch ++ "v" ++ v.arm else v.field f
  arm := ""

namespace Node

theorem HasSpelling.isArmSuffix_eq_false {n : Node} (h : n.HasSpelling) :
    n.isArmSuffix = false := by
  rw [Bool.eq_false_iff]
  intro hn
  have hc := isConditional_of_isArmSuffix hn
  rw [h.isConditional_eq_false] at hc
  contradiction

theorem eval?_revised {n : Node} (h : n.HasSpelling) (hn : n.isArch = false) :
    n.eval? v.revised = n.eval? v := by
  cases n with
  | literal text s => rfl
  | field f s =>
    have hf : f ≠ .arch := by
      rintro rfl
      contradiction
    simp [eval?, Values.revised, hf]
  | arm s => exact h.elim
  | unknown name s => exact h.elim
  | conditional condition body otherwise s => exact h.elim
  | unsupported action s => exact h.elim

/-- An architecture and the suffix after it print what the installer takes for the architecture. -/
theorem evalAll?_arch_suffix (hv : v.arm ≠ "") {n m : Node} (hn : n.isArch = true)
    (hm : m.isLetteredSuffix = true) (rest : List Node) : ∃ printed : List Char,
      evalAll? v (n :: m :: rest) = (evalAll? v rest).map (printed ++ ·) ∧
        evalAll? v.revised (n :: m :: rest) = (evalAll? v.revised rest).map (printed ++ ·) := by
  refine ⟨(v.field .arch).toList ++ 'v' :: v.arm.toList, ?_, ?_⟩
  · unfold isArch at hn
    split at hn
    · simp [evalAll?, eval?, eval?_letteredSuffix hv hm, Function.comp_def]
    · contradiction
  · have hs := isArmSuffix_of_isLetteredSuffix hm
    have he := eval?_armSuffix_of_empty (v := v.revised) rfl hs
    unfold isArch at hn
    split at hn
    · simp [evalAll?, he]
      simp [eval?, Values.revised]
    · contradiction

end Node

/-- On an ARM processor the installer takes out what each further suffix of a run would print. So the
template and its expression agree exactly where no suffix follows another. The induction goes on behind
an architecture with its suffix, or behind any other node. -/
theorem evalAll?_revised (hv : v.arm ≠ "") (b : Bool) (nodes : List Node)
    (hs : ∀ n ∈ dropArmSuffixes b nodes, n.HasSpelling) (ha : SpellsRevisions nodes) :
    ∃ printed expanded, Node.evalAll? v nodes = some printed ∧
      Node.evalAll? v.revised nodes = some expanded ∧ expanded.length ≤ printed.length ∧
      (printed = expanded ↔ SuffixesApart b nodes) := by
  match nodes with
  | [] => exact ⟨[], [], rfl, rfl, by simp, by simp [SuffixesApart]⟩
  | n :: rest =>
    by_cases hn : n.isArmSuffix = true
    · obtain ⟨word, hw, hne⟩ := Node.eval?_armSuffix_of_nonempty hv hn
      have he := Node.eval?_armSuffix_of_empty (v := v.revised) rfl hn
      have hb : b = true := by
        rw [← Bool.not_eq_false]
        rintro rfl
        have hc := (hs n (by simp [dropArmSuffixes])).isArmSuffix_eq_false
        rw [hn] at hc
        contradiction
      subst hb
      rw [dropArmSuffixes, hn, Bool.and_self, if_pos rfl] at hs
      obtain ⟨printed, expanded, hp, hx, hl, -⟩ := evalAll?_revised hv true rest hs ha.2
      have hword := List.length_pos_iff.mpr hne
      refine ⟨word ++ printed, expanded, by simp [Node.evalAll?, hw, hp],
        by simp [Node.evalAll?, he, hx], by simp only [List.length_append]; omega, ?_⟩
      constructor
      · rintro rfl
        simp only [List.length_append] at hl
        omega
      · intro h
        have hf := h.1 rfl
        rw [hn] at hf
        contradiction
    · rw [Bool.not_eq_true] at hn
      have hd : dropArmSuffixes b (n :: rest) = n :: dropArmSuffixes n.isArch rest := by
        rw [dropArmSuffixes, hn, Bool.and_false, if_neg (by simp)]
      rw [hd] at hs
      have hrest : ∀ m ∈ dropArmSuffixes n.isArch rest, m.HasSpelling := fun m hm => hs m (by simp [hm])
      by_cases harch : n.isArch = true
      · obtain ⟨m, hhead, hm⟩ := ha.1 harch
        obtain ⟨after, rfl⟩ := List.head?_eq_some_iff.mp hhead
        have hms := Node.isArmSuffix_of_isLetteredSuffix hm
        rw [harch, dropArmSuffixes, hms, Bool.and_self, if_pos rfl] at hrest
        obtain ⟨printed, expanded, hp, hx, hl, hiff⟩ :=
          evalAll?_revised hv true after hrest ha.2.2
        obtain ⟨word, hw, he⟩ := Node.evalAll?_arch_suffix hv harch hm after
        refine ⟨word ++ printed, word ++ expanded, by simp [hw, hp], by simp [he, hx],
          by simpa using hl, ?_⟩
        simpa [SuffixesApart, hn, hms] using hiff
      · rw [Bool.not_eq_true] at harch
        rw [harch] at hrest
        obtain ⟨printed, expanded, hp, hx, hl, hiff⟩ := evalAll?_revised hv false rest hrest ha.2
        obtain ⟨word, hw⟩ := Node.eval?_of_hasSpelling v (hs n (by simp))
        have he := (Node.eval?_revised (v := v) (hs n (by simp)) harch).trans hw
        refine ⟨word ++ printed, word ++ expanded, by simp [Node.evalAll?, hw, hp],
          by simp [Node.evalAll?, he, hx], by simpa using hl, ?_⟩
        simpa [SuffixesApart, hn] using hiff
termination_by nodes.length

/-- On an ARM processor, an accepted template that spells out the revision of each architecture agrees
with its expression exactly where no suffix follows another. -/
theorem printed_eq_expanded_iff {target template : String} {a : Assignment} {t : NameTemplate}
    (h : assign target template = .ok a) (ht : parse template = .ok t)
    (ha : SpellsRevisions t.nodes) (hv : v.arm ≠ "")
    (henv : ∀ f : Field, env f.variableName = v.revised.field f) : ∃ printed expanded,
      Node.evalAll? v t.nodes = some printed ∧
        expand env a.expression.toList = some expanded ∧
        (printed = expanded ↔ SuffixesApart false t.nodes) := by
  obtain ⟨printed, expanded, hp, hx, -, hiff⟩ :=
    evalAll?_revised hv false t.nodes (dropArmSuffixes_hasSpelling h ht) ha
  exact ⟨printed, expanded, hp, (expand_expression h ht rfl henv).trans hx, hiff⟩

def archAction : String := "\x7b\x7b .Arch \x7d\x7d"

def revisionSuffix : String :=
  "\x7b\x7b if .Arm \x7d\x7dv\x7b\x7b .Arm \x7d\x7d\x7b\x7b end \x7d\x7d"

theorem printed_eq_expanded_iff_armv7 : ∃ t printed expanded,
    parse (archAction ++ revisionSuffix) = .ok t ∧
    Node.evalAll? (.onLinux "arm" "7") t.nodes = some printed ∧
    expand (Values.onLinux "arm" "7").revised.environment "$\x7bARCH\x7d".toList = some expanded ∧
    printed = expanded := by
  have h : assign "NAME=" (archAction ++ revisionSuffix) = .ok ⟨"NAME=", "$\x7bARCH\x7d"⟩ := by
    decide +kernel
  obtain ⟨t, ht, -⟩ := assign_eq_ok_iff.mp h
  have hnodes : ∀ t ∈ (parse (archAction ++ revisionSuffix)).toOption,
      SpellsRevisions t.nodes ∧ SuffixesApart false t.nodes := by decide +kernel
  obtain ⟨hspells, hapart⟩ := hnodes t (toOption_eq_some_iff.mpr ht)
  obtain ⟨printed, expanded, hp, hx, hiff⟩ :=
    printed_eq_expanded_iff (v := .onLinux "arm" "7") h ht hspells (by decide)
      (Values.environment_variableName _)
  exact ⟨t, printed, expanded, ht, hp, hx, hiff.mpr hapart⟩

/-- A template that spells a revision twice is accepted, but the installer asks for another file than
the one it names. -/
theorem doubled_suffix_names_other_file : ∃ a t,
    assign "NAME=" (archAction ++ revisionSuffix ++ revisionSuffix) = .ok a ∧
    parse (archAction ++ revisionSuffix ++ revisionSuffix) = .ok t ∧
    SpellsRevisions t.nodes ∧
    Node.evalAll? (.onLinux "arm" "7") t.nodes = some "armv7v7".toList ∧
    expand (Values.onLinux "arm" "7").revised.environment a.expression.toList =
      some "armv7".toList := by
  have h : assign "NAME=" (archAction ++ revisionSuffix ++ revisionSuffix) =
      .ok ⟨"NAME=", "$\x7bARCH\x7d"⟩ := by decide +kernel
  obtain ⟨t, ht, -⟩ := assign_eq_ok_iff.mp h
  have hnodes : ∀ t ∈ (parse (archAction ++ revisionSuffix ++ revisionSuffix)).toOption,
      SpellsRevisions t.nodes ∧
        Node.evalAll? (.onLinux "arm" "7") t.nodes = some "armv7v7".toList := by decide +kernel
  obtain ⟨hspells, hprinted⟩ := hnodes t (toOption_eq_some_iff.mpr ht)
  have hexpanded : expand (Values.onLinux "arm" "7").revised.environment "$\x7bARCH\x7d".toList =
      some "armv7".toList := by decide +kernel
  exact ⟨_, t, h, ht, hspells, hprinted, hexpanded⟩

end ReleaseInstaller.NameTemplate
