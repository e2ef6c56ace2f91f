import ReleaseInstaller.Proofs.NameTemplate.Translation
import ReleaseInstaller.Proofs.NameTemplate.Trimming

/-! What may stand between the braces of a template that is accepted. Every action leaves its trace in
the tree, so none of them can be anything else once no node of the tree is refused. -/
namespace ReleaseInstaller.NameTemplate
open Text

/-- The names of the fields and of the ARM revision. -/
def fieldNames : List String :=
  ["Os", "OS", "Arch", "Version", "Tag", "Binary", "ProjectName", "Arm"]

/-- What an action looks like that has a meaning in a name. -/
inductive IsWellFormed : List Char → Prop
  | field {name : String} (h : name ∈ fieldNames) : IsWellFormed name.toList
  | dottedField {name : String} (h : name ∈ fieldNames) : IsWellFormed ('.' :: name.toList)
  | condition {blanks : List Char} {name : String} (hne : blanks ≠ [])
      (hblanks : ∀ c ∈ blanks, isBlank c = true) (h : name ∈ [".Arm", "Arm"]) :
      IsWellFormed ("if".toList ++ blanks ++ name.toList)
  | closing : IsWellFormed "end".toList
  | comment (remark : List Char) : IsWellFormed ("/*".toList ++ remark ++ "*/".toList)

/-- Malformed actions that nobody looks at closely: words behind the end of a conditional, and a comment
that is closed by the star that opens it. -/
inductive IsOverlooked : List Char → Prop
  | closing {c : Char} (words : List Char) (hc : isBlank c = true) :
      IsOverlooked ("end".toList ++ c :: words)
  | comment : IsOverlooked "/*/".toList

theorem head?_of_mem_fieldNames :
    ∀ name ∈ fieldNames, name.toList.head? ≠ some 'e' ∧ name.toList.head? ≠ some '/' := by
  decide

theorem IsOverlooked.not_isWellFormed {text : List Char} (h : IsOverlooked text) :
    ¬ IsWellFormed text := by
  intro hw
  cases h with
  | @closing c words hc =>
    generalize ht : "end".toList ++ c :: words = text at hw
    have hhead := congrArg List.head? ht
    cases hw with
    | field h => exact (head?_of_mem_fieldNames _ h).1 hhead.symm
    | dottedField h => exact absurd hhead (by simp)
    | condition hne hblanks h => exact absurd hhead (by simp)
    | closing => exact absurd (congrArg List.length ht) (by simp)
    | comment remark => exact absurd hhead (by simp)
  | comment =>
    generalize ht : "/*/".toList = text at hw
    have hhead := congrArg List.head? ht
    cases hw with
    | field h => exact (head?_of_mem_fieldNames _ h).2 hhead.symm
    | dottedField h => exact absurd hhead (by simp)
    | condition hne hblanks h => exact absurd hhead (by simp)
    | closing => exact absurd hhead (by simp)
    | comment remark =>
      have hlength := congrArg List.length ht
      simp at hlength

/-- An action that is no comment, read as far as the tree needs it. -/
inductive IsLegible (text : List Char) : Prop
  | field {name : String} (h : name ∈ fieldNames)
      (htext : text = name.toList ∨ text = '.' :: name.toList)
  | condition (hword : (firstWord text).1 = "if".toList)
      (h : Node.isArmSuffix.isArmCondition (trim (firstWord text).2) = true)
  | closing (hword : (firstWord text).1 = "end".toList)

namespace Node

/-- The node may be part of an accepted template. -/
def IsSound : Node → Prop
  | literal .. | field .. | arm _ => True
  | unknown .. | unsupported .. => False
  | conditional condition body otherwise span =>
    (conditional condition body otherwise span).isArmSuffix = true

theorem isSound_of_isArmSuffix {n : Node} (h : n.isArmSuffix = true) : n.IsSound := by
  cases n with
  | conditional condition body otherwise span => exact h
  | literal text span => trivial
  | field f span => trivial
  | arm span => trivial
  | unknown name span => contradiction
  | unsupported action span => contradiction

theorem HasSpelling.isSound {n : Node} (h : n.HasSpelling) : n.IsSound := by
  cases n with
  | literal text span => trivial
  | field f span => trivial
  | arm span => trivial
  | unknown name span => exact h.elim
  | conditional condition body otherwise span => exact h.elim
  | unsupported action span => exact h.elim

/-- A suffix holds nothing that is refused, and has no other branch. -/
theorem IsSound.parts {condition : List Char} {body : List Node} {otherwise : Option (List Node)}
    {span : Span} (h : (conditional condition body otherwise span).IsSound) :
    isArmSuffix.isArmCondition condition = true ∧ otherwise = none ∧ ∀ n ∈ body, n.IsSound := by
  have hsuffix : (conditional condition body otherwise span).isArmSuffix = true := h
  unfold isArmSuffix at hsuffix
  split at hsuffix
  · rename_i heq
    obtain ⟨rfl, rfl, rfl, rfl⟩ := conditional.inj heq
    exact ⟨hsuffix, rfl, by simp [IsSound]⟩
  · rename_i heq
    obtain ⟨rfl, rfl, rfl, rfl⟩ := conditional.inj heq
    rw [Bool.and_eq_true] at hsuffix
    exact ⟨hsuffix.1, rfl, by simp [IsSound]⟩
  · contradiction

theorem mem_fieldNames_of_ofName? {name : String} {f : Field} (h : Field.ofName? name = some f) :
    name ∈ fieldNames := by
  unfold Field.ofName? at h
  split_ifs at h with hos
  · rcases hos with rfl | rfl <;> decide
  all_goals
    subst name
    decide

theorem exists_fieldName {name : List Char} {span : Span} (h : (ofFieldName name span).IsSound) :
    ∃ known ∈ fieldNames, name = known.toList := by
  unfold ofFieldName at h
  split at h
  · rename_i harm
    exact ⟨"Arm", by decide, harm⟩
  · split at h
    · rename_i f hf
      exact ⟨_, mem_fieldNames_of_ofName? hf, String.toList_ofList.symm⟩
    · exact h.elim

theorem isLegible_of_ofAction {text : List Char} {span : Span} (h : (ofAction text span).IsSound) :
    IsLegible text := by
  unfold ofAction at h
  split at h
  · split at h
    · obtain ⟨name, hname, rfl⟩ := exists_fieldName h
      exact .field hname (.inr rfl)
    · exact h.elim
  · split at h
    · obtain ⟨name, hname, htext⟩ := exists_fieldName h
      exact .field hname (.inl htext)
    · exact h.elim
  · exact h.elim

end Node

/-- The conditional can still become a suffix. -/
structure OpenBlock.IsSound (b : OpenBlock) : Prop where
  condition : Node.isArmSuffix.isArmCondition b.condition = true
  otherwise : b.otherwise = none
  body : ∀ n ∈ b.body, n.IsSound

theorem OpenBlock.IsSound.of_push {b : OpenBlock} {n : Node} (h : (b.push n).IsSound) :
    b.IsSound ∧ n.IsSound := by
  unfold push at h
  split at h
  · exact absurd h.otherwise (by simp)
  · rename_i hnone
    obtain ⟨hbody, hn⟩ := List.forall_mem_append.mp h.body
    exact ⟨⟨h.condition, hnone, hbody⟩, hn n (by simp)⟩

namespace Building

/-- Nothing has been refused so far. -/
structure IsSound (s : Building) : Prop where
  nodes : ∀ n ∈ s.nodes, n.IsSound
  blocks : ∀ b ∈ s.blocks, b.IsSound

theorem IsSound.of_push {s : Building} {n : Node} (h : (s.push n).IsSound) :
    s.IsSound ∧ n.IsSound := by
  unfold push at h
  split at h
  · rename_i hnil
    obtain ⟨hnodes, hn⟩ := List.forall_mem_append.mp h.nodes
    exact ⟨⟨hnodes, by simp [hnil]⟩, hn n (by simp)⟩
  · rename_i b outer hcons
    obtain ⟨hb, houter⟩ := List.forall_mem_cons.mp h.blocks
    obtain ⟨hb, hn⟩ := hb.of_push
    exact ⟨⟨h.nodes, by rw [hcons]; exact List.forall_mem_cons.mpr ⟨hb, houter⟩⟩, hn⟩

/-- A refused action makes everything that is built from it refused. -/
theorem IsSound.of_action {s s' : Building} {text : List Char} {start stop : Nat}
    (h : s.action text start stop = .ok s') (hs : s'.IsSound) : s.IsSound ∧ IsLegible text := by
  unfold action at h
  dsimp only at h
  split at h
  · rename_i hword
    split at h
    · contradiction
    · obtain rfl := Except.ok.inj h
      obtain ⟨hb, houter⟩ := List.forall_mem_cons.mp hs.blocks
      exact ⟨⟨hs.nodes, houter⟩, .condition hword hb.condition⟩
  · split at h
    · split at h
      · contradiction
      · split at h
        · contradiction
        · obtain rfl := Except.ok.inj h
          obtain ⟨hb, -⟩ := List.forall_mem_cons.mp hs.blocks
          exact absurd hb.otherwise (by simp)
    · split at h
      · rename_i hword
        split at h
        · contradiction
        · rename_i b outer hcons
          obtain rfl := Except.ok.inj h
          obtain ⟨houter, hn⟩ := hs.of_push
          obtain ⟨hcondition, hotherwise, hbody⟩ := hn.parts
          refine ⟨⟨houter.nodes, ?_⟩, .closing hword⟩
          rw [hcons]
          exact List.forall_mem_cons.mpr ⟨⟨hcondition, hotherwise, hbody⟩, houter.blocks⟩
      · obtain rfl := Except.ok.inj h
        obtain ⟨hs, hn⟩ := hs.of_push
        exact ⟨hs, Node.isLegible_of_ofAction hn⟩

theorem IsSound.of_foldlM {tokens : List Token} {s s' : Building}
    (h : tokens.foldlM step s = .ok s') (hs : s'.IsSound) :
    s.IsSound ∧ ∀ text start stop, .action text start stop ∈ tokens → IsLegible text := by
  induction tokens generalizing s with
  | nil =>
    obtain rfl := Except.ok.inj h
    exact ⟨hs, fun _ _ _ hmem => absurd hmem List.not_mem_nil⟩
  | cons t tokens ih =>
    rw [List.foldlM_cons] at h
    obtain ⟨next, hstep, hlater⟩ := bind_eq_ok.mp h
    obtain ⟨hnext, htokens⟩ := ih hlater
    cases t with
    | text chars start =>
      obtain rfl := Except.ok.inj hstep
      obtain ⟨hs, -⟩ := hnext.of_push
      refine ⟨hs, fun text start stop hmem => ?_⟩
      exact htokens text start stop (by simpa using hmem)
    | action known start stop =>
      obtain ⟨hs, hknown⟩ := hnext.of_action hstep
      refine ⟨hs, fun text start stop hmem => ?_⟩
      rcases List.mem_cons.mp hmem with heq | hmem
      · obtain ⟨rfl, -, -⟩ := Token.action.inj heq
        exact hknown
      · exact htokens text start stop hmem

end Building

theorem isLegible_of_mem_tokens {size : Nat} {tokens : List Token} {nodes : List Node}
    (h : Node.ofTokens size tokens = .ok nodes) (hnodes : ∀ n ∈ nodes, n.IsSound)
    {text : List Char} {start stop : Nat} (hmem : .action text start stop ∈ tokens) :
    IsLegible text := by
  obtain ⟨s, hrun, hfinish⟩ := bind_eq_ok.mp h
  have hs : s.IsSound := by
    unfold Building.finish at hfinish
    split at hfinish
    · rename_i hnil
      obtain rfl := Except.ok.inj hfinish
      exact ⟨hnodes, by simp [hnil]⟩
    · contradiction
  exact (hs.of_foldlM hrun).2 text start stop hmem

theorem mem_dropArmSuffixes_or {n : Node} {nodes : List Node} (h : n ∈ nodes) (afterArch : Bool) :
    n ∈ dropArmSuffixes afterArch nodes ∨ n.isArmSuffix = true := by
  induction nodes generalizing afterArch with
  | nil => contradiction
  | cons m nodes ih =>
    rw [dropArmSuffixes]
    rcases List.mem_cons.mp h with rfl | h
    · split
      · rename_i hdrop
        exact .inr (Bool.and_eq_true_iff.mp hdrop).2
      · exact .inl List.mem_cons_self
    · split
      · exact ih h afterArch
      · exact (ih h m.isArch).imp_left (List.mem_cons_of_mem m)

theorem mem_of_mem_dropArmSuffixes {n : Node} {nodes : List Node} {afterArch : Bool}
    (h : n ∈ dropArmSuffixes afterArch nodes) : n ∈ nodes := by
  induction nodes generalizing afterArch with
  | nil => exact h
  | cons m rest ih =>
    rw [dropArmSuffixes] at h
    split_ifs at h
    · exact List.mem_cons_of_mem m (ih h)
    · rcases List.mem_cons.mp h with rfl | h
      · simp
      · exact List.mem_cons_of_mem m (ih h)

/-- An action is a comment, or it is left as a token. -/
theorem mem_tokensBy {reached : List Clause → Bool} {c : Clause} {clauses : List Clause}
    (h : c ∈ clauses) (start : Nat) (trimmed : Bool) (first : List Char) :
    c.isComment = true ∨ ∃ opening stop,
      .action c.text opening stop ∈ tokensBy reached start trimmed first clauses := by
  induction clauses generalizing start trimmed first with
  | nil => contradiction
  | cons d clauses ih =>
    simp only [tokensBy, List.mem_append]
    rcases List.mem_cons.mp h with rfl | h
    · cases hcomment : c.isComment with
      | true => exact .inl rfl
      | false =>
        refine .inr ⟨start + byteLength first,
          (Action.ofBody c.body (start + byteLength first)).stop, .inl (.inr ?_)⟩
        simp only [Clause.tokens, hcomment, Bool.false_eq_true, if_false, List.mem_singleton]
    · rcases ih h (Action.ofBody d.body (start + byteLength first)).stop d.ClosesWithMarker
        d.after with hcomment | ⟨opening, stop, hmem⟩
      · exact .inl hcomment
      · exact .inr ⟨opening, stop, .inr hmem⟩

theorem getLast?_text (c : Clause) : ∀ last ∈ c.text.getLast?, isBlank last = false :=
  getLast?_trimEnd _

theorem IsLegible.cases_text {text : List Char} (h : IsLegible text)
    (hend : ∀ c ∈ text.getLast?, isBlank c = false) : IsWellFormed text ∨ IsOverlooked text := by
  obtain ⟨-, hsplit⟩ := firstWord_eq text
  cases h with
  | field h htext =>
    rcases htext with rfl | rfl
    · exact .inl (.field h)
    · exact .inl (.dottedField h)
  | condition hword h =>
    have hname : ∃ name ∈ [".Arm", "Arm"], trim (firstWord text).2 = name.toList := by
      simpa [Node.isArmSuffix.isArmCondition] using h
    obtain ⟨name, hmem, hname⟩ := hname
    rcases hsplit with ⟨-, hrest⟩ | ⟨c, hc, htext⟩
    · rw [hrest] at h
      contradiction
    · obtain ⟨before, after, hrest, hbefore, hafter⟩ := exists_trim (firstWord text).2
      have heq : text = "if".toList ++ (c :: before) ++ name.toList ++ after := by
        calc text = (firstWord text).1 ++ c :: (firstWord text).2 := htext
          _ = "if".toList ++ c :: (before ++ name.toList ++ after) := by
            rw [hword, ← hname, ← hrest]
          _ = "if".toList ++ (c :: before) ++ name.toList ++ after := by
            simp only [List.append_assoc, List.cons_append]
      -- The text ends in no white space, so nothing comes behind the condition.
      have hnil : after = [] := by
        cases hlast : after.getLast? with
        | none => exact List.getLast?_eq_none_iff.mp hlast
        | some d =>
          have hd := hafter d (List.mem_of_getLast? hlast)
          rw [heq, List.getLast?_append, hlast, Option.some_or] at hend
          rw [hend d rfl] at hd
          contradiction
      rw [heq, hnil, List.append_nil]
      have hblanks : ∀ d ∈ c :: before, isBlank d = true := List.forall_mem_cons.mpr ⟨hc, hbefore⟩
      exact .inl (.condition (List.cons_ne_nil c before) hblanks hmem)
  | closing hword =>
    rw [hword] at hsplit
    rcases hsplit with ⟨htext, -⟩ | ⟨c, hc, htext⟩
    · rw [htext]
      exact .inl .closing
    · rw [htext]
      exact .inr (.closing _ hc)

/-- The star that opens a comment may close it. -/
theorem cases_comment {c : Clause} (h : c.isComment = true) :
    IsWellFormed c.text ∨ IsOverlooked c.text := by
  rw [Clause.isComment, Action.isComment, Bool.and_eq_true, List.isPrefixOf_iff_prefix,
    List.isSuffixOf_iff_suffix] at h
  obtain ⟨⟨inside, hopen⟩, hclose⟩ : ['/', '*'] <+: c.text ∧ ['*', '/'] <:+ c.text := h
  rw [← hopen] at hclose ⊢
  match inside with
  | [] => exact absurd hclose (by decide)
  | [d] =>
    obtain ⟨init, hinit⟩ := hclose
    have hlast : '/' = d := by simpa using congrArg List.getLast? hinit
    rw [← hlast]
    exact .inr .comment
  | d :: e :: inside =>
    have hshort : ['*', '/'] <:+ d :: e :: inside :=
      List.suffix_of_suffix_length_le hclose (List.suffix_append _ _) (by simp)
    obtain ⟨remark, hremark⟩ := hshort
    have hcomment := IsWellFormed.comment remark
    rw [List.append_assoc] at hcomment
    rw [← hremark]
    exact .inl hcomment

/-- Every action of an accepted template is well formed, or it is one of the malformed ones that are
overlooked. -/
theorem isWellFormed_iff_of_assign {target template : String} {a : Assignment}
    (h : assign target template = .ok a) : ∃ first clauses, IsCut template.toList first clauses ∧
      ∀ c ∈ clauses, (IsWellFormed c.text ↔ ¬ IsOverlooked c.text) := by
  obtain ⟨t, ht, hspelling, -⟩ := assign_eq_ok_iff.mp h
  obtain ⟨first, clauses, nodes, hcut, hnodes, rfl⟩ := parse_eq_ok_iff.mp ht
  have hsound : ∀ n ∈ nodes, n.IsSound := by
    intro n hn
    rcases mem_dropArmSuffixes_or hn false with hkept | hdropped
    · exact (hspelling n hkept).isSound
    · exact Node.isSound_of_isArmSuffix hdropped
  refine ⟨first, clauses, hcut, fun c hc => ?_⟩
  have hcases : IsWellFormed c.text ∨ IsOverlooked c.text := by
    rw [ofSegments_segmentsFrom] at hnodes
    rcases mem_tokensBy hc 0 false first with hcomment | ⟨opening, stop, hmem⟩
    · exact cases_comment hcomment
    · exact (isLegible_of_mem_tokens hnodes hsound hmem).cases_text (getLast?_text c)
  exact ⟨fun hw ho => ho.not_isWellFormed hw, hcases.resolve_right⟩

/-- An architecture with its revision, written with blanks, a marker and a comment. -/
def spacedTemplate : String :=
  "\x7b\x7bArch\x7d\x7d\x7b\x7b if  Arm -\x7d\x7d v\x7b\x7b/* 7 */\x7d\x7d" ++
    "\x7b\x7b .Arm\x7d\x7d\x7b\x7bend\x7d\x7d"

theorem isWellFormed_iff_of_assign_suffix :
    ∃ first clauses, IsCut spacedTemplate.toList first clauses ∧
      ∀ c ∈ clauses, (IsWellFormed c.text ↔ ¬ IsOverlooked c.text) := by
  have h : assign "NAME=" spacedTemplate = .ok ⟨"NAME=", "$\x7bARCH\x7d"⟩ := by decide +kernel
  exact isWellFormed_iff_of_assign h

/-- A conditional that ends in several words. -/
def wordyTemplate : String :=
  "\x7b\x7b.Arch\x7d\x7d\x7b\x7bif .Arm\x7d\x7d\x7b\x7b.Arm\x7d\x7d\x7b\x7bend of it\x7d\x7d"

/-- A comment that nothing closes, before a field. -/
def starTemplate : String := "\x7b\x7b/*/\x7d\x7d\x7b\x7b.Os\x7d\x7d"

/-- Words behind an end and a comment that is not closed are not refused. -/
theorem overlooked_actions_are_accepted :
    (∃ first clauses, IsCut wordyTemplate.toList first clauses ∧
      (∃ c ∈ clauses, ¬ IsWellFormed c.text) ∧
      assign "NAME=" wordyTemplate = .ok ⟨"NAME=", "$\x7bARCH\x7d"⟩) ∧
    ∃ first clauses, IsCut starTemplate.toList first clauses ∧
      (∃ c ∈ clauses, ¬ IsWellFormed c.text) ∧
      assign "NAME=" starTemplate = .ok ⟨"NAME=", "$\x7bOS\x7d"⟩ := by
  have hwordy : IsCut wordyTemplate.toList [] [⟨".Arch".toList, []⟩, ⟨"if .Arm".toList, []⟩,
      ⟨".Arm".toList, []⟩, ⟨"end of it".toList, []⟩] := by
    have h := @IsCut.action [] ".Arch".toList _ _ _ (by decide) (by decide)
      (@IsCut.action [] "if .Arm".toList _ _ _ (by decide) (by decide)
        (@IsCut.action [] ".Arm".toList _ _ _ (by decide) (by decide)
          (@IsCut.action [] "end of it".toList _ _ _ (by decide) (by decide)
            (@IsCut.text [] (by decide)))))
    exact h
  have hstar : IsCut starTemplate.toList [] [⟨"/*/".toList, []⟩, ⟨".Os".toList, []⟩] := by
    have h := @IsCut.action [] "/*/".toList _ _ _ (by decide) (by decide)
      (@IsCut.action [] ".Os".toList _ _ _ (by decide) (by decide)
        (@IsCut.text [] (by decide)))
    exact h
  have hend : IsOverlooked "end of it".toList := .closing " of it".toList.tail (by decide)
  refine ⟨⟨_, _, hwordy, ⟨⟨"end of it".toList, []⟩, by simp, hend.not_isWellFormed⟩, ?_⟩,
    _, _, hstar, ⟨⟨"/*/".toList, []⟩, by simp, IsOverlooked.comment.not_isWellFormed⟩, ?_⟩
  · decide +kernel
  · decide +kernel

end ReleaseInstaller.NameTemplate
