import Mathlib.Data.List.Chain
import Mathlib.Data.List.Induction
import ReleaseInstaller.NameTemplate.Basic

/-! What folding leaves of a template. The nodes that are dropped are known by the nodes before them, and
once they are gone there is nothing more to drop. -/
namespace ReleaseInstaller.NameTemplate
open Text

namespace Node

/-- The body of an ARM suffix: the revision, bare or after a `v`. -/
def IsArmBody (body : List Node) : Prop :=
  (∃ span, body = [.arm span]) ∨ ∃ letter span, body = [.literal ['v'] letter, .arm span]

/-- Prints the ARM revision where there is one, and nothing else anywhere. -/
def IsArmSuffix (n : Node) : Prop :=
  ∃ condition body span, n = .conditional condition body none span ∧
    (condition = ".Arm".toList ∨ condition = "Arm".toList) ∧ IsArmBody body

theorem isArch_iff {n : Node} : n.isArch = true ↔ ∃ span, n = .field .arch span := by
  unfold isArch
  split <;> simp_all

theorem isArmSuffix_iff {n : Node} : n.isArmSuffix = true ↔ n.IsArmSuffix := by
  constructor
  · intro h
    unfold isArmSuffix at h
    split at h
    · rename_i condition inner span
      simp only [isArmSuffix.isArmCondition, Bool.or_eq_true, beq_iff_eq] at h
      exact ⟨condition, _, span, rfl, h, .inl ⟨inner, rfl⟩⟩
    · rename_i condition text letter inner span
      simp only [isArmSuffix.isArmCondition, Bool.and_eq_true, Bool.or_eq_true, beq_iff_eq] at h
      obtain ⟨hcondition, rfl⟩ := h
      exact ⟨condition, _, span, rfl, hcondition, .inr ⟨letter, inner, rfl⟩⟩
    · contradiction
  · rintro ⟨condition, body, span, rfl, hcondition, ⟨inner, rfl⟩ | ⟨letter, inner, rfl⟩⟩
    · simpa [isArmSuffix, isArmSuffix.isArmCondition] using hcondition
    · simpa [isArmSuffix, isArmSuffix.isArmCondition] using hcondition

theorem IsArmBody.eq_of_literal {body : List Node} (h : IsArmBody body) {text : List Char}
    {letter : Span} (hmem : .literal text letter ∈ body) : text = ['v'] := by
  rcases h with ⟨span, rfl⟩ | ⟨letter', span, rfl⟩
  · simp at hmem
  · simp at hmem
    exact hmem.1

/-- What is not quite an ARM suffix is none: a conditional with another branch or another condition, and
one whose body holds other text or anything else beside the revision. -/
theorem not_isArmSuffix_conditional {condition : List Char} {body : List Node}
    {otherwise : Option (List Node)} {span : Span}
    (h : otherwise ≠ none ∨ (condition ≠ ".Arm".toList ∧ condition ≠ "Arm".toList) ∨
      (∃ text letter, .literal text letter ∈ body ∧ text ≠ ['v']) ∨ ¬ IsArmBody body) :
    ¬ (conditional condition body otherwise span).IsArmSuffix := by
  rintro ⟨_, _, _, heq, hcondition, hbody⟩
  obtain ⟨rfl, rfl, rfl, rfl⟩ := conditional.inj heq
  rcases h with hbranch | hother | ⟨text, letter, hmem, htext⟩ | hnot
  · exact hbranch rfl
  · exact hcondition.elim hother.1 hother.2
  · exact htext (hbody.eq_of_literal hmem)
  · exact hnot hbody

end Node

/-- The nodes end in an architecture, or in ARM suffixes right behind one. -/
def EndInArch (nodes : List Node) : Prop :=
  ∃ earlier span suffixes, nodes = earlier ++ .field .arch span :: suffixes ∧
    ∀ n ∈ suffixes, n.IsArmSuffix

/-- An ARM suffix that is separated from an architecture before it by nothing but ARM suffixes. -/
def IsRedundant (nodes : List Node) (i : Fin nodes.length) : Prop :=
  (nodes.get i).IsArmSuffix ∧ EndInArch (nodes.take i)

variable {nodes : List Node} {n : Node}

section Dropping

/-- Whether the node kept last is an architecture when some more nodes have been read. -/
def keptArch (afterArch : Bool) (nodes : List Node) : Bool :=
  nodes.foldl (fun kept n => if kept && n.isArmSuffix then kept else n.isArch) afterArch

theorem endInArch_concat :
    EndInArch (nodes ++ [n]) ↔ (∃ span, n = .field .arch span) ∨ n.IsArmSuffix ∧ EndInArch nodes := by
  constructor
  · rintro ⟨earlier, span, suffixes, heq, hall⟩
    rcases List.eq_nil_or_concat' suffixes with rfl | ⟨suffixes, m, rfl⟩
    · exact .inl ⟨span, List.singleton_inj.mp (List.append_inj' heq rfl).2⟩
    · rw [← List.cons_append, ← List.append_assoc] at heq
      obtain ⟨rfl, hlast⟩ := List.append_inj' heq rfl
      obtain rfl := List.singleton_inj.mp hlast
      rw [List.forall_mem_append] at hall
      exact .inr ⟨hall.2 n List.mem_cons_self, earlier, span, suffixes, rfl, hall.1⟩
  · rintro (⟨span, rfl⟩ | ⟨hn, earlier, span, suffixes, rfl, hall⟩)
    · exact ⟨nodes, span, [], rfl, by simp⟩
    · refine ⟨earlier, span, suffixes ++ [n], by simp, ?_⟩
      rw [List.forall_mem_append]
      exact ⟨hall, List.forall_mem_singleton.mpr hn⟩

/-- What is kept last says what the nodes read so far end in. -/
theorem keptArch_iff : keptArch false nodes = true ↔ EndInArch nodes := by
  induction nodes using List.reverseRecOn with
  | nil => simp [keptArch, EndInArch]
  | append_singleton nodes n ih =>
    have hstep : keptArch false (nodes ++ [n]) =
        if keptArch false nodes && n.isArmSuffix then keptArch false nodes else n.isArch :=
      List.foldl_concat ..
    rw [endInArch_concat, ← ih, ← Node.isArch_iff, ← Node.isArmSuffix_iff, hstep]
    cases keptArch false nodes <;> cases n.isArmSuffix <;> simp

/-- The nodes that are kept, by their positions: all but the suffixes that are read while the node kept
last is an architecture. -/
theorem dropArmSuffixes_eq (afterArch : Bool) (nodes : List Node) :
    dropArmSuffixes afterArch nodes = ((List.finRange nodes.length).filter fun i =>
      !((nodes.get i).isArmSuffix && keptArch afterArch (nodes.take i))).map nodes.get := by
  induction nodes generalizing afterArch with
  | nil => rfl
  | cons n rest ih =>
    -- Behind the first node the positions move up by one, and it may be the node kept last.
    have hfirst : (n.isArmSuffix && keptArch afterArch []) = (afterArch && n.isArmSuffix) :=
      Bool.and_comm _ _
    have hlater : ∀ later, keptArch afterArch (n :: later) =
        keptArch (if afterArch && n.isArmSuffix then afterArch else n.isArch) later :=
      fun _ => rfl
    have hrange : List.finRange (n :: rest).length = 0 :: (List.finRange rest.length).map Fin.succ :=
      List.finRange_succ
    rw [dropArmSuffixes, hrange, List.filter_cons, List.filter_map]
    simp only [List.get_cons_zero, Fin.val_zero, List.take_zero, hfirst, Function.comp_def,
      List.get_cons_succ', Fin.val_succ, List.take_succ_cons, hlater]
    cases hdrop : afterArch && n.isArmSuffix with
    | true => simp [ih]
    | false => simp [ih]

end Dropping

section NormalForm

/-- No ARM suffix directly follows an architecture. -/
def IsFolded (nodes : List Node) : Prop :=
  nodes.IsChain fun n m => n.isArch = true → m.isArmSuffix = false

theorem isFolded_dropArmSuffixes (afterArch : Bool) (nodes : List Node) :
    IsFolded (dropArmSuffixes afterArch nodes) ∧
      (afterArch = true → ∀ n ∈ (dropArmSuffixes afterArch nodes).head?, n.isArmSuffix = false) := by
  induction nodes generalizing afterArch with
  | nil => exact ⟨.nil, by simp [dropArmSuffixes]⟩
  | cons n rest ih =>
    rw [dropArmSuffixes]
    split
    · exact ih afterArch
    · rename_i hkeep
      obtain ⟨hfolded, hhead⟩ := ih n.isArch
      refine ⟨List.isChain_cons.mpr ⟨fun m hm harch => hhead harch m hm, hfolded⟩, ?_⟩
      rintro rfl m hm
      obtain rfl := Option.some.inj hm
      simpa using hkeep

theorem IsFolded.dropArmSuffixes_eq {afterArch : Bool} (h : IsFolded nodes)
    (hhead : afterArch = true → ∀ n ∈ nodes.head?, n.isArmSuffix = false) :
    dropArmSuffixes afterArch nodes = nodes := by
  induction nodes generalizing afterArch with
  | nil => rfl
  | cons n rest ih =>
    obtain ⟨hnext, hrest⟩ := List.isChain_cons.mp h
    have hkeep : ¬ (afterArch && n.isArmSuffix) = true := by
      rw [Bool.and_eq_true]
      rintro ⟨hafter, hn⟩
      rw [hhead hafter n rfl] at hn
      contradiction
    rw [dropArmSuffixes, if_neg hkeep, ih hrest fun harch m hm => hnext m hm harch]

theorem IsFolded.not_isArmSuffix (h : IsFolded nodes) {span : Span}
    (hnext : [.field .arch span, n] <:+: nodes) : ¬ n.IsArmSuffix := by
  have hpair := List.IsChain.infix h hnext
  rw [← Node.isArmSuffix_iff, List.isChain_pair.mp hpair rfl]
  exact Bool.false_ne_true

end NormalForm

/-- Folding keeps the nodes of a template as they are and in their order, but for the ARM suffixes that
nothing but ARM suffixes separates from an architecture before them. Conditionals that are not quite
suffixes are among the nodes that are kept. Nothing is left to fold after that. -/
theorem foldArmSuffixes_exact (t : NameTemplate) :
    t.foldArmSuffixes.source = t.source ∧
    t.foldArmSuffixes.nodes.Sublist t.nodes ∧
    (∃ kept : List (Fin t.nodes.length), kept.Pairwise (· < ·) ∧
      t.foldArmSuffixes.nodes = kept.map t.nodes.get ∧
      (∀ i, i ∉ kept ↔ IsRedundant t.nodes i) ∧
      ∀ i condition body otherwise span,
        t.nodes.get i = .conditional condition body otherwise span →
        (otherwise ≠ none ∨ (condition ≠ ".Arm".toList ∧ condition ≠ "Arm".toList) ∨
          (∃ text letter, .literal text letter ∈ body ∧ text ≠ ['v']) ∨ ¬ Node.IsArmBody body) →
        i ∈ kept) ∧
    (∀ span n, [.field .arch span, n] <:+: t.foldArmSuffixes.nodes → ¬ n.IsArmSuffix) ∧
    t.foldArmSuffixes.foldArmSuffixes = t.foldArmSuffixes := by
  let kept := (List.finRange t.nodes.length).filter fun i =>
    !((t.nodes.get i).isArmSuffix && keptArch false (t.nodes.take i))
  have hnodes : t.foldArmSuffixes.nodes = kept.map t.nodes.get := dropArmSuffixes_eq false t.nodes
  have hpairwise : kept.Pairwise (· < ·) := (List.pairwise_lt_finRange _).filter _
  have hdropped : ∀ i, i ∉ kept ↔ IsRedundant t.nodes i := fun i => by
    simp [kept, IsRedundant, ← Node.isArmSuffix_iff, ← keptArch_iff]
  have hfolded : IsFolded t.foldArmSuffixes.nodes := (isFolded_dropArmSuffixes false t.nodes).1
  refine ⟨rfl, ?_, ⟨kept, hpairwise, hnodes, hdropped, ?_⟩, ?_, ?_⟩
  · rw [hnodes]
    exact List.map_getElem_sublist hpairwise
  · intro i condition body otherwise span hi hother
    by_contra hnot
    have hsuffix := ((hdropped i).mp hnot).1
    rw [hi] at hsuffix
    exact Node.not_isArmSuffix_conditional hother hsuffix
  · intro span n hnext
    exact hfolded.not_isArmSuffix hnext
  · rw [foldArmSuffixes, hfolded.dropArmSuffixes_eq (by simp)]

/-- It would be an ARM suffix without its empty other branch. -/
def otherBranch : Node := .conditional ".Arm".toList [.arm ⟨56, 10⟩] (some []) ⟨43, 42⟩

/-- An architecture, an ARM suffix and what is not quite one. -/
def armTemplate : NameTemplate where
  source := "\x7b\x7b .Arch \x7d\x7d" ++
    "\x7b\x7b if .Arm \x7d\x7d\x7b\x7b .Arm \x7d\x7d\x7b\x7b end \x7d\x7d" ++
    "\x7b\x7b if .Arm \x7d\x7d\x7b\x7b .Arm \x7d\x7d\x7b\x7b else \x7d\x7d\x7b\x7b end \x7d\x7d"
  nodes := [.field .arch ⟨0, 11⟩, .conditional ".Arm".toList [.arm ⟨24, 10⟩] none ⟨11, 32⟩, otherBranch]

theorem foldArmSuffixes_exact_other_branch :
    IsRedundant armTemplate.nodes ⟨1, by decide⟩ ∧ ¬ IsRedundant armTemplate.nodes ⟨2, by decide⟩ ∧
    [.field .arch ⟨0, 11⟩, otherBranch] <:+: armTemplate.foldArmSuffixes.nodes ∧
    ¬ otherBranch.IsArmSuffix := by
  obtain ⟨-, -, ⟨kept, -, -, hdropped, hother⟩, hnext, -⟩ := foldArmSuffixes_exact armTemplate
  have hsuffix : (armTemplate.nodes.get ⟨1, by decide⟩).IsArmSuffix :=
    ⟨_, _, _, rfl, .inl rfl, .inl ⟨_, rfl⟩⟩
  have hkept : ⟨2, by decide⟩ ∈ kept := hother _ _ _ _ _ rfl (.inl (by simp))
  have hleft : [.field .arch ⟨0, 11⟩, otherBranch] <:+: armTemplate.foldArmSuffixes.nodes :=
    ⟨[], [], rfl⟩
  refine ⟨⟨hsuffix, [], ⟨0, 11⟩, [], rfl, by simp⟩, ?_, hleft, hnext _ _ hleft⟩
  rw [← hdropped, not_not]
  exact hkept

end ReleaseInstaller.NameTemplate
