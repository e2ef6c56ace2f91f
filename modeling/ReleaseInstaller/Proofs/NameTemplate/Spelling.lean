import ReleaseInstaller.Proofs.NameTemplate.Actions
import ReleaseInstaller.Proofs.NameTemplate.Balance

/-! What accepted templates say: the characters of a name and the fields in it. Offsets, comments, the
white space that is trimmed and the ARM suffixes of architectures have no part in that. -/
namespace ReleaseInstaller.NameTemplate
open Text Shell

/-- A part of a template: a character that stands for itself, or an action. -/
inductive Mark where
  | char (c : Char)
  | action (text : List Char)
  deriving DecidableEq, Repr

/-- A part of a name. -/
inductive Piece where
  | char (c : Char)
  | field (f : Field)
  deriving DecidableEq, Repr

/-- What the shell is given for it. -/
def Piece.expression : Piece → List Char
  | char c => [c]
  | field f => f.reference

def Token.marks : Token → List Mark
  | .text chars _ => chars.map .char
  | .action words _ _ => [.action words]

/-- What is left of a text. -/
def textMarks (trimsStart trimsEnd : Bool) (chars : List Char) : List Mark :=
  let kept := keptStart trimsStart chars
  (if trimsEnd then trimEnd kept else kept).map .char

def Clause.marks (c : Clause) : List Mark := if c.isComment then [] else [.action c.text]

/-- What is left of a template that begins with the first text. -/
def marks (trimmed : Bool) (first : List Char) : List Clause → List Mark
  | [] => textMarks trimmed false first
  | c :: rest =>
    textMarks trimmed (isReached (c :: rest)) first ++ c.marks ++ marks c.ClosesWithMarker c.after rest

/-- The action names the field, with or without a dot. -/
def RefersTo (text : List Char) (f : Field) : Prop :=
  ∃ name, Field.ofName? name = some f ∧ (text = name.toList ∨ text = '.' :: name.toList)

/-- The name of the ARM revision, with or without a dot. -/
def IsArm (text : List Char) : Prop := text = "Arm".toList ∨ text = ".Arm".toList

/-- A conditional that adds the ARM revision: bare, or after a `v`. -/
inductive IsSuffix : List Mark → Prop
  | bare {opening condition arm closing : List Char}
      (hopening : Role.ofAction opening = .opening condition) (hcondition : IsArm condition)
      (harm : IsArm arm) (hclosing : Role.ofAction closing = .closing) :
      IsSuffix [.action opening, .action arm, .action closing]
  | lettered {opening condition arm closing : List Char}
      (hopening : Role.ofAction opening = .opening condition) (hcondition : IsArm condition)
      (harm : IsArm arm) (hclosing : Role.ofAction closing = .closing) :
      IsSuffix [.action opening, .char 'v', .action arm, .action closing]

/-- The marks spell a name. Right behind an architecture they may spell its ARM suffix too. -/
inductive Spells : Bool → List Mark → List Piece → Prop
  | nil {afterArch : Bool} : Spells afterArch [] []
  | char {afterArch : Bool} {c : Char} {later : List Mark} {pieces : List Piece}
      (hc : isWordChar c = true) (h : Spells false later pieces) :
      Spells afterArch (.char c :: later) (.char c :: pieces)
  | field {afterArch : Bool} {text : List Char} {f : Field} {later : List Mark} {pieces : List Piece}
      (hf : RefersTo text f) (h : Spells (f = .arch) later pieces) :
      Spells afterArch (.action text :: later) (.field f :: pieces)
  | suffix {s later : List Mark} {pieces : List Piece} (hs : IsSuffix s)
      (h : Spells true later pieces) : Spells true (s ++ later) pieces

/-- The template spells the name. -/
def IsSpelled (template : String) (pieces : List Piece) : Prop :=
  ∃ first clauses, IsCut template.toList first clauses ∧ Spells false (marks false first clauses) pieces

/-- The parts of a name that a node stands for. -/
def Node.pieces : Node → List Piece
  | literal text _ => text.map .char
  | field f _ => [.field f]
  | _ => []

variable {afterArch : Bool} {s later : List Mark} {pieces : List Piece} {text chars : List Char}
  {f : Field} {tokens : List Token} {nodes : List Node} {t : Token} {n : Node} {span : Span}

section Marks

theorem marks_textTokens (start : Nat) (trimsStart trimsEnd : Bool) (chars : List Char) :
    (textTokens start trimsStart trimsEnd chars).flatMap Token.marks =
      textMarks trimsStart trimsEnd chars := by
  unfold textTokens textMarks
  dsimp only
  generalize (if trimsEnd then trimEnd (keptStart trimsStart chars)
    else keptStart trimsStart chars) = left
  split_ifs with hnil
  · simp [hnil]
  · simp [Token.marks]

theorem marks_clause (c : Clause) (start : Nat) : (c.tokens start).flatMap Token.marks = c.marks := by
  unfold Clause.tokens Clause.marks
  split <;> rfl

/-- The marks of a template are those of its tokens. -/
theorem marks_tokensBy (start : Nat) (trimmed : Bool) (first : List Char) (clauses : List Clause) :
    (tokensBy isReached start trimmed first clauses).flatMap Token.marks =
      marks trimmed first clauses := by
  induction clauses generalizing start trimmed first with
  | nil => exact marks_textTokens start trimmed false first
  | cons c rest ih =>
    rw [tokensBy, marks]
    simp only [List.flatMap_append, marks_textTokens, marks_clause, ih]

theorem marks_ne_nil_of_mem_textTokens {start : Nat} {trimsStart trimsEnd : Bool}
    (h : t ∈ textTokens start trimsStart trimsEnd chars) : t.marks ≠ [] := by
  unfold textTokens at h
  dsimp only at h
  generalize (if trimsEnd then trimEnd (keptStart trimsStart chars)
    else keptStart trimsStart chars) = left at h
  split_ifs at h with hnil
  · simp at h
  · rw [List.mem_singleton.mp h]
    simpa [Token.marks] using hnil

theorem marks_ne_nil_of_mem_tokens {c : Clause} {start : Nat} (h : t ∈ c.tokens start) :
    t.marks ≠ [] := by
  unfold Clause.tokens at h
  split at h
  · simp at h
  · rw [List.mem_singleton.mp h]
    simp [Token.marks]

/-- No token of a template is empty. -/
theorem marks_ne_nil {start : Nat} {trimmed : Bool} {first : List Char} {clauses : List Clause}
    (h : t ∈ tokensBy isReached start trimmed first clauses) : t.marks ≠ [] := by
  induction clauses generalizing start trimmed first with
  | nil => exact marks_ne_nil_of_mem_textTokens h
  | cons c rest ih =>
    simp only [tokensBy, List.mem_append] at h
    rcases h with (h | h) | h
    · exact marks_ne_nil_of_mem_textTokens h
    · exact marks_ne_nil_of_mem_tokens h
    · exact ih h

end Marks

section Actions
open Node

theorem name_ne_arm {name : String} (h : Field.ofName? name = some f) : name ≠ "Arm" := by
  rintro rfl
  contradiction

/-- The name of a field is no keyword, and begins with a capital. -/
theorem name_isReference :
    ∀ name ∈ fieldNames, Role.ofAction name.toList = .content ∧
      Role.ofAction ('.' :: name.toList) = .content ∧ name.toList ≠ [] ∧
      name.toList.all isNameChar = true ∧ name.toList.head?.all Char.isUpper = true ∧
      name.toList.head? ≠ some '.' := by
  decide

theorem ofAction_of_name {name : String} (h : name ∈ fieldNames) (span : Span)
    (htext : text = name.toList ∨ text = '.' :: name.toList) :
    Role.ofAction text = .content ∧ ofAction text span = ofFieldName name.toList span := by
  obtain ⟨hplain, hdotted, hne, hall, hupper, hdot⟩ := name_isReference name h
  rcases htext with rfl | rfl
  · refine ⟨hplain, ?_⟩
    obtain ⟨c, rest, hname⟩ := List.exists_cons_of_ne_nil hne
    rw [hname] at hall hupper hdot ⊢
    have hrest : rest.all isNameChar = true := (Bool.and_eq_true_iff.mp hall).2
    unfold ofAction
    split
    · rename_i hcons
      rw [hcons] at hdot
      exact absurd rfl hdot
    · rename_i c rest hcons
      obtain ⟨rfl, rfl⟩ := List.cons.inj hcons
      rw [if_pos ⟨hupper, hrest⟩]
    · contradiction
  · refine ⟨hdotted, ?_⟩
    simp only [ofAction]
    rw [if_pos ⟨hne, hall⟩]

theorem RefersTo.ofAction (h : RefersTo text f) (span : Span) :
    Role.ofAction text = .content ∧ Node.ofAction text span = .field f span := by
  obtain ⟨name, hname, htext⟩ := h
  obtain ⟨hrole, hnode⟩ := ofAction_of_name (mem_fieldNames_of_ofName? hname) span htext
  have harm : name.toList ≠ "Arm".toList := fun h => name_ne_arm hname (String.toList_inj.mp h)
  refine ⟨hrole, hnode.trans ?_⟩
  rw [ofFieldName, if_neg harm, String.ofList_toList, hname]

theorem IsArm.ofAction (h : IsArm text) (span : Span) :
    Role.ofAction text = .content ∧ Node.ofAction text span = .arm span :=
  have hmem : "Arm" ∈ fieldNames := by decide
  ofAction_of_name hmem span h

theorem refersTo_of_ofAction (h : Node.ofAction text span = .field f span) : RefersTo text f := by
  rcases ofAction_eq text span with hkept | ⟨name, hname, htext⟩
  · rw [hkept] at h
    contradiction
  · rw [hname, ofFieldName] at h
    split_ifs at h
    split at h
    · rename_i g hg
      obtain ⟨rfl, -⟩ := Node.field.inj h
      exact ⟨String.ofList name, hg, by simpa using htext⟩
    · contradiction

theorem isArm_of_ofAction (h : Node.ofAction text span = .arm span) : IsArm text := by
  rcases ofAction_eq text span with hkept | ⟨name, hname, htext⟩
  · rw [hkept] at h
    contradiction
  · rw [hname, ofFieldName] at h
    split_ifs at h with harm
    · rw [harm] at htext
      exact htext
    · split at h <;> contradiction

theorem IsArm.ne_nil (h : IsArm text) : text ≠ [] := by
  rcases h with rfl | rfl <;> decide

theorem isArmCondition_iff : isArmSuffix.isArmCondition text = true ↔ IsArm text := by
  simp only [isArmSuffix.isArmCondition, Bool.or_eq_true, beq_iff_eq, IsArm]
  exact or_comm

end Actions

section Pieces

/-- Knowing of no architecture, one reads no more into the marks. -/
theorem Spells.of_false (h : Spells false s pieces) (afterArch : Bool) :
    Spells afterArch s pieces := by
  cases h with
  | nil => exact .nil
  | char hc h => exact .char hc h
  | field hf h => exact .field hf h

theorem Spells.append {more : List Piece} (h : Spells afterArch s pieces)
    (hmore : Spells false later more) : Spells afterArch (s ++ later) (pieces ++ more) := by
  induction h with
  | nil => exact hmore.of_false _
  | char hc _ ih => exact .char hc ih
  | field hf _ ih => exact .field hf ih
  | suffix hs _ ih =>
    rw [List.append_assoc]
    exact .suffix hs ih

theorem spells_map_char (hchars : ∀ c ∈ chars, isWordChar c = true) (h : Spells false later pieces)
    (afterArch : Bool) :
    Spells afterArch (chars.map .char ++ later) (chars.map .char ++ pieces) := by
  induction chars generalizing afterArch with
  | nil => exact h.of_false afterArch
  | cons c chars ih =>
    obtain ⟨hc, hchars⟩ := List.forall_mem_cons.mp hchars
    exact .char hc (ih hchars false)

theorem Spells.of_map_char (h : Spells false (chars.map .char ++ later) pieces) :
    (∀ c ∈ chars, isWordChar c = true) ∧
      ∃ rest, pieces = chars.map .char ++ rest ∧ Spells false later rest := by
  induction chars generalizing pieces with
  | nil => exact ⟨by simp, pieces, rfl, h⟩
  | cons c chars ih =>
    cases h with
    | char hc h =>
      obtain ⟨hchars, rest, rfl, hrest⟩ := ih h
      exact ⟨List.forall_mem_cons.mpr ⟨hc, hchars⟩, rest, rfl, hrest⟩

theorem Spells.isWordChar_of_mem (h : Spells afterArch s pieces) :
    ∀ c, .char c ∈ pieces → isWordChar c = true := by
  induction h with
  | nil => simp
  | char hc _ ih => simpa using ⟨hc, ih⟩
  | field _ _ ih => simpa using ih
  | suffix _ _ ih => exact ih

theorem flatMap_expression_pieces (nodes : List Node) :
    (nodes.flatMap Node.pieces).flatMap Piece.expression = nodes.flatMap Node.spelling := by
  rw [List.flatMap_assoc]
  congr 1
  funext n
  cases n with
  | literal text span =>
    rw [Node.pieces, Node.spelling]
    induction text with
    | nil => rfl
    | cons c text ih => simpa [Piece.expression] using ih
  | field f span => simp [Node.pieces, Piece.expression, Node.spelling]
  | arm span => rfl
  | unknown name span => rfl
  | conditional condition body otherwise span => rfl
  | unsupported action span => rfl

end Pieces

section Reading

/-- The node that a token of content gives. -/
inductive IsLeaf : Token → Node → Prop
  | text (chars : List Char) (start : Nat) :
      IsLeaf (.text chars start) (.literal chars ⟨start, byteLength chars⟩)
  | action {text : List Char} (start stop : Nat) (hrole : Role.ofAction text = .content) :
      IsLeaf (.action text start stop) (.ofAction text (.between start stop))

theorem exists_isLeaf (ht : t.role = .content) : ∃ n, t.leaves = [n] ∧ IsLeaf t n := by
  cases t with
  | text chars start => exact ⟨_, rfl, .text chars start⟩
  | action words start stop =>
    have hrole : Role.ofAction words = .content := ht
    exact ⟨_, by simp only [Token.leaves, hrole], .action start stop hrole⟩

theorem IsLeaf.isArmSuffix_eq_false (h : IsLeaf t n) : n.isArmSuffix = false := by
  cases h with
  | text chars start => rfl
  | @action text start stop hrole =>
    rcases Node.cases_ofAction text (.between start stop) with ⟨f, h⟩ | h | ⟨name, h⟩ | h <;>
      rw [h] <;> rfl

/-- A leaf with a spelling says what its token says. -/
theorem IsLeaf.spells (h : IsLeaf t n) (hn : n.HasSpelling) (hlater : Spells n.isArch later pieces)
    (afterArch : Bool) : Spells afterArch (t.marks ++ later) (n.pieces ++ pieces) := by
  cases h with
  | text chars start => exact spells_map_char hn hlater afterArch
  | @action text start stop hrole =>
    rcases Node.cases_ofAction text (.between start stop) with ⟨f, hnode⟩ | hnode | ⟨name, hnode⟩ | hnode
    · rw [hnode] at hlater ⊢
      refine .field (refersTo_of_ofAction hnode) ?_
      cases f <;> exact hlater
    all_goals
      rw [hnode] at hn
      exact hn.elim

/-- The first of the nodes, unless it is a conditional, comes from the first token. -/
theorem IsWritten.of_cons (h : IsWritten tokens (n :: nodes))
    (hn : ∀ condition body otherwise place, n ≠ .conditional condition body otherwise place) :
    ∃ t rest, tokens = t :: rest ∧ IsLeaf t n ∧ IsWritten rest nodes := by
  generalize hall : n :: nodes = all at h
  cases h with
  | nil => contradiction
  | @content t rest others ht h =>
    obtain ⟨m, hleaves, hleaf⟩ := exists_isLeaf ht
    rw [hleaves, List.singleton_append] at hall
    obtain ⟨rfl, rfl⟩ := List.cons.inj hall
    exact ⟨t, rest, rfl, hleaf, h⟩
  | conditional => exact absurd (List.cons.inj hall).1 (hn _ _ _ _)
  | divided => exact absurd (List.cons.inj hall).1 (hn _ _ _ _)

theorem IsWritten.of_nil (h : IsWritten tokens []) : tokens = [] := by
  generalize hall : ([] : List Node) = all at h
  cases h with
  | nil => rfl
  | content ht h =>
    obtain ⟨m, hleaves, -⟩ := exists_isLeaf ht
    rw [hleaves] at hall
    contradiction
  | conditional => contradiction
  | divided => contradiction

theorem IsLeaf.exists_arm (h : IsLeaf t (.arm span)) :
    ∃ text start stop, t = .action text start stop ∧ IsArm text := by
  generalize hn : Node.arm span = n at h
  cases h with
  | text => contradiction
  | @action text start stop hrole =>
    obtain rfl : span = .between start stop := by
      rcases Node.cases_ofAction text (.between start stop) with ⟨f, h⟩ | h | ⟨name, h⟩ | h <;>
        simp [h] at hn
      exact hn
    exact ⟨text, start, stop, rfl, isArm_of_ofAction hn.symm⟩

theorem IsLeaf.exists_text (h : IsLeaf t (.literal chars span)) : ∃ start, t = .text chars start := by
  generalize hn : Node.literal chars span = n at h
  cases h with
  | text others start =>
    obtain ⟨rfl, -⟩ := Node.literal.inj hn
    exact ⟨start, rfl⟩
  | @action text start stop hrole =>
    rcases Node.cases_ofAction text (.between start stop) with ⟨f, h⟩ | h | ⟨name, h⟩ | h <;>
      rw [h] at hn <;> contradiction

/-- What a suffix in the tree is written with. -/
theorem IsWritten.isSuffix {opening closing : Token} {condition : List Char} {body : List Token}
    {bodyNodes : List Node} (hbody : IsWritten body bodyNodes)
    (hopening : opening.role = .opening condition) (hclosing : closing.role = .closing)
    (h : (Node.conditional condition bodyNodes none span).isArmSuffix = true) :
    IsSuffix (opening.marks ++ body.flatMap Token.marks ++ closing.marks) := by
  cases opening with
  | text => contradiction
  | action first start stop =>
    cases closing with
    | text => contradiction
    | action last start' stop' =>
      unfold Node.isArmSuffix at h
      split at h
      · rename_i heq
        obtain ⟨rfl, rfl, -, -⟩ := Node.conditional.inj heq
        obtain ⟨t, rest, rfl, hleaf, hrest⟩ := hbody.of_cons (by simp)
        obtain ⟨text, start, stop, rfl, harm⟩ := hleaf.exists_arm
        obtain rfl := hrest.of_nil
        exact .bare hopening (isArmCondition_iff.mp h) harm hclosing
      · rename_i heq
        obtain ⟨rfl, rfl, -, -⟩ := Node.conditional.inj heq
        rw [Bool.and_eq_true, beq_iff_eq] at h
        obtain ⟨hcondition, rfl⟩ := h
        obtain ⟨u, others, rfl, hletter, hothers⟩ := hbody.of_cons (by simp)
        obtain ⟨start, rfl⟩ := hletter.exists_text
        obtain ⟨t, rest, rfl, hleaf, hrest⟩ := hothers.of_cons (by simp)
        obtain ⟨text, start, stop, rfl, harm⟩ := hleaf.exists_arm
        obtain rfl := hrest.of_nil
        exact .lettered hopening (isArmCondition_iff.mp hcondition) harm hclosing
      · contradiction

/-- The tokens of a tree without faults spell what its nodes stand for. -/
theorem IsWritten.spells (h : IsWritten tokens nodes) (afterArch : Bool)
    (hnodes : ∀ n ∈ dropArmSuffixes afterArch nodes, n.HasSpelling) :
    Spells afterArch (tokens.flatMap Token.marks)
      ((dropArmSuffixes afterArch nodes).flatMap Node.pieces) := by
  induction h generalizing afterArch with
  | nil => exact .nil
  | @content t later nodes ht _ ih =>
    obtain ⟨n, hleaves, hleaf⟩ := exists_isLeaf ht
    rw [hleaves, List.singleton_append, dropArmSuffixes, hleaf.isArmSuffix_eq_false, Bool.and_false,
      if_neg (by simp)] at hnodes ⊢
    obtain ⟨hn, hrest⟩ := List.forall_mem_cons.mp hnodes
    exact hleaf.spells hn (ih _ hrest) afterArch
  | @conditional opening closing condition body later bodyNodes nodes hopening _ hbody hclosing _ _ ih =>
    rw [dropArmSuffixes] at hnodes ⊢
    split_ifs at hnodes ⊢ with hdrop
    · obtain ⟨rfl, hsuffix⟩ := Bool.and_eq_true_iff.mp hdrop
      have hmarks := hbody.isSuffix hopening hclosing hsuffix
      simpa using Spells.suffix hmarks (ih true hnodes)
    · exact (hnodes _ List.mem_cons_self).elim
  | divided =>
    rw [dropArmSuffixes] at hnodes ⊢
    split_ifs at hnodes with hdrop
    · obtain ⟨-, hnone, -⟩ :=
        (Node.isSound_of_isArmSuffix (Bool.and_eq_true_iff.mp hdrop).2).parts
      contradiction
    · exact (hnodes _ List.mem_cons_self).elim

theorem IsLeaf.isWritten (h : IsLeaf t n) (hrest : IsWritten tokens nodes) :
    IsWritten (t :: tokens) (n :: nodes) := by
  cases h with
  | text chars start => exact .content rfl hrest
  | @action text start stop hrole =>
    have ht : (Token.action text start stop).role = .content := hrole
    have hwritten := IsWritten.content ht hrest
    simpa only [Token.leaves, hrole, List.singleton_append] using hwritten

theorem dropArmSuffixes_of_not (hn : n.isArmSuffix = false) (afterArch : Bool) (nodes : List Node) :
    dropArmSuffixes afterArch (n :: nodes) = n :: dropArmSuffixes n.isArch nodes := by
  rw [dropArmSuffixes, hn, Bool.and_false, if_neg (by simp)]

theorem exists_action_of_marks (h : tokens.flatMap Token.marks = .action text :: later)
    (hne : ∀ t ∈ tokens, t.marks ≠ []) : ∃ start stop rest, tokens = .action text start stop :: rest ∧
      rest.flatMap Token.marks = later ∧ ∀ t ∈ rest, t.marks ≠ [] := by
  cases tokens with
  | nil => contradiction
  | cons t rest =>
    obtain ⟨ht, hrest⟩ := List.forall_mem_cons.mp hne
    cases t with
    | text chars start =>
      cases chars with
      | nil => contradiction
      | cons c chars => simp [Token.marks] at h
    | action words start stop =>
      simp only [List.flatMap_cons, Token.marks, List.singleton_append, List.cons.injEq,
        Mark.action.injEq] at h
      obtain ⟨rfl, hlater⟩ := h
      exact ⟨start, stop, rest, rfl, hlater, hrest⟩

theorem exists_text_of_marks {c : Char} (h : tokens.flatMap Token.marks = .char c :: later)
    (hne : ∀ t ∈ tokens, t.marks ≠ []) : ∃ chars start rest, tokens = .text (c :: chars) start :: rest ∧
      chars.map .char ++ rest.flatMap Token.marks = later ∧ ∀ t ∈ rest, t.marks ≠ [] := by
  cases tokens with
  | nil => contradiction
  | cons t rest =>
    obtain ⟨ht, hrest⟩ := List.forall_mem_cons.mp hne
    cases t with
    | text chars start =>
      cases chars with
      | nil => contradiction
      | cons d chars =>
        simp only [List.flatMap_cons, Token.marks, List.map_cons, List.cons_append, List.cons.injEq,
          Mark.char.injEq] at h
        obtain ⟨rfl, hlater⟩ := h
        exact ⟨chars, start, rest, rfl, hlater, hrest⟩
    | action words start stop => simp [Token.marks] at h

/-- What the marks of a suffix are read as. -/
theorem IsSuffix.exists_isWritten (hs : IsSuffix s)
    (h : tokens.flatMap Token.marks = s ++ later) (hne : ∀ t ∈ tokens, t.marks ≠ []) :
    ∃ block rest n, tokens = block ++ rest ∧ block ≠ [] ∧ IsWritten block [n] ∧
      n.isArmSuffix = true ∧ rest.flatMap Token.marks = later ∧ ∀ t ∈ rest, t.marks ≠ [] := by
  cases hs with
  | @bare opening condition arm closing hopening hcondition harm hclosing =>
    obtain ⟨s₁, e₁, rest₁, rfl, h, hne⟩ := exists_action_of_marks h hne
    obtain ⟨s₂, e₂, rest₂, rfl, h, hne⟩ := exists_action_of_marks h hne
    obtain ⟨s₃, e₃, rest, rfl, h, hne⟩ := exists_action_of_marks h hne
    obtain ⟨hrole, hnode⟩ := harm.ofAction (.between s₂ e₂)
    have hbody := (IsLeaf.action s₂ e₂ hrole).isWritten .nil
    have hopens : (Token.action opening s₁ e₁).role = .opening condition := hopening
    have hcloses : (Token.action closing s₃ e₃).role = .closing := hclosing
    have hblock := IsWritten.conditional hopens hcondition.ne_nil hbody hcloses .nil
    refine ⟨_, rest, _, by simp, by simp, hblock, ?_, h, hne⟩
    rw [hnode]
    exact isArmCondition_iff.mpr hcondition
  | @lettered opening condition arm closing hopening hcondition harm hclosing =>
    obtain ⟨s₁, e₁, rest₁, rfl, h, hne⟩ := exists_action_of_marks h hne
    obtain ⟨chars, s₂, rest₂, rfl, h, hrest⟩ := exists_text_of_marks h hne
    obtain rfl : chars = [] := by
      cases chars with
      | nil => rfl
      | cons c chars => simp at h
    obtain ⟨s₃, e₃, rest₃, rfl, h, hne⟩ := exists_action_of_marks h hrest
    obtain ⟨s₄, e₄, rest, rfl, h, hne⟩ := exists_action_of_marks h hne
    obtain ⟨hrole, hnode⟩ := harm.ofAction (.between s₃ e₃)
    have hbody := (IsLeaf.text ['v'] s₂).isWritten ((IsLeaf.action s₃ e₃ hrole).isWritten .nil)
    have hopens : (Token.action opening s₁ e₁).role = .opening condition := hopening
    have hcloses : (Token.action closing s₄ e₄).role = .closing := hclosing
    have hblock := IsWritten.conditional hopens hcondition.ne_nil hbody hcloses .nil
    refine ⟨_, rest, _, by simp, by simp, hblock, ?_, h, hne⟩
    rw [hnode]
    simpa [Node.isArmSuffix] using isArmCondition_iff.mpr hcondition

/-- Tokens that spell a name have a tree without faults. -/
theorem Spells.exists_isWritten (h : Spells afterArch (tokens.flatMap Token.marks) pieces)
    (hne : ∀ t ∈ tokens, t.marks ≠ []) : ∃ nodes, IsWritten tokens nodes ∧
      (∀ n ∈ dropArmSuffixes afterArch nodes, n.HasSpelling) ∧
      (dropArmSuffixes afterArch nodes).flatMap Node.pieces = pieces := by
  -- The tokens of a suffix are read together, so the induction is on how many tokens there are.
  induction hlength : tokens.length using Nat.strong_induction_on
    generalizing tokens afterArch pieces with
  | _ length ih =>
    generalize hs : tokens.flatMap Token.marks = s at h
    cases h with
    | nil =>
      cases tokens with
      | nil => exact ⟨[], .nil, by simp [dropArmSuffixes], rfl⟩
      | cons t rest => exact absurd (List.append_eq_nil_iff.mp hs).1 (hne t (by simp))
    | @char _ c later pieces hc hlater =>
      obtain ⟨chars, start, rest, rfl, hrest, hne⟩ := exists_text_of_marks hs hne
      rw [← hrest] at hlater
      obtain ⟨hchars, others, rfl, hothers⟩ := hlater.of_map_char
      obtain ⟨nodes, hnodes, hspelling, hpieces⟩ := ih rest.length (by simp [← hlength]) hothers hne rfl
      have hleaf := IsLeaf.text (c :: chars) start
      refine ⟨_, hleaf.isWritten hnodes, ?_⟩
      rw [dropArmSuffixes_of_not hleaf.isArmSuffix_eq_false]
      refine ⟨List.forall_mem_cons.mpr ⟨List.forall_mem_cons.mpr ⟨hc, hchars⟩, hspelling⟩, ?_⟩
      rw [List.flatMap_cons, ← hpieces]
      rfl
    | @field _ text f later pieces hf hlater =>
      obtain ⟨start, stop, rest, rfl, rfl, hne⟩ := exists_action_of_marks hs hne
      obtain ⟨nodes, hnodes, hspelling, hpieces⟩ := ih rest.length (by simp [← hlength]) hlater hne rfl
      obtain ⟨hrole, hnode⟩ := hf.ofAction (.between start stop)
      have hleaf := IsLeaf.action start stop hrole
      have harch : (Node.field f (.between start stop)).isArch = decide (f = .arch) := by
        cases f <;> rfl
      refine ⟨_, hleaf.isWritten hnodes, ?_⟩
      rw [dropArmSuffixes_of_not hleaf.isArmSuffix_eq_false, hnode, harch]
      refine ⟨List.forall_mem_cons.mpr ⟨trivial, hspelling⟩, ?_⟩
      rw [List.flatMap_cons, ← hpieces]
      rfl
    | @suffix s later pieces hsuffix hlater =>
      obtain ⟨block, rest, n, rfl, hblock, hwritten, hn, rfl, hne⟩ := hsuffix.exists_isWritten hs hne
      have hpos := List.length_pos_iff.mpr hblock
      have hlt : rest.length < length := by
        rw [← hlength, List.length_append]
        omega
      obtain ⟨nodes, hnodes, hspelling, hpieces⟩ := ih rest.length hlt hlater hne rfl
      refine ⟨n :: nodes, hwritten.append hnodes, ?_⟩
      rw [dropArmSuffixes, hn, Bool.and_self, if_pos rfl]
      exact ⟨hspelling, hpieces⟩

end Reading

/-- The accepted templates are those that spell a name, and the expression is that of the name. -/
theorem assign_eq_ok_iff_isSpelled {target template : String} {a : Assignment} :
    assign target template = .ok a ↔ ∃ pieces, IsSpelled template pieces ∧
      a = ⟨target, String.ofList (pieces.flatMap Piece.expression)⟩ := by
  rw [assign_eq_ok_iff]
  constructor
  · rintro ⟨t, ht, hspelling, rfl⟩
    obtain ⟨first, clauses, nodes, hcut, hnodes, rfl⟩ := parse_eq_ok_iff.mp ht
    rw [ofSegments_segmentsFrom] at hnodes
    have hspells := (ofTokens_eq_ok_iff.mp hnodes).spells false hspelling
    rw [marks_tokensBy] at hspells
    refine ⟨_, ⟨first, clauses, hcut, hspells⟩, ?_⟩
    rw [flatMap_expression_pieces]
    rfl
  · rintro ⟨pieces, ⟨first, clauses, hcut, hspells⟩, rfl⟩
    rw [← marks_tokensBy 0] at hspells
    obtain ⟨nodes, hnodes, hspelling, hpieces⟩ := hspells.exists_isWritten fun t => marks_ne_nil
    refine ⟨⟨template, nodes⟩, ?_, hspelling, ?_⟩
    · rw [parse_eq_ok_iff]
      refine ⟨first, clauses, nodes, hcut, ?_, rfl⟩
      rw [ofSegments_segmentsFrom, ofTokens_eq_ok_iff]
      exact hnodes
    · rw [← hpieces, flatMap_expression_pieces]
      rfl

theorem IsSpelled.assign_eq {template : String} (h : IsSpelled template pieces) (target : String) :
    assign target template = .ok ⟨target, String.ofList (pieces.flatMap Piece.expression)⟩ :=
  assign_eq_ok_iff_isSpelled.mpr ⟨pieces, h, rfl⟩

end ReleaseInstaller.NameTemplate
