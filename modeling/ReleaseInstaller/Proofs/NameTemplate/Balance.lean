import ReleaseInstaller.NameTemplate.Basic
import ReleaseInstaller.Proofs.NameTemplate.Tree

/-! Which templates have a tree, what is wrong with the others, and where in its tree a template puts
what it says. -/
namespace ReleaseInstaller.NameTemplate
open Text

/-- The rule of conditionals that a token breaks behind others. -/
def violation? (before : List Token) (t : Token) : Option Malformation :=
  match t.role with
  | .opening condition => if condition = [] then some .missingCondition else none
  | .dividing =>
    match (enclosing before).getLast? with
    | none => some .strayElse
    | some b => if b.isOther then some .secondElse else none
  | .closing => if enclosing before = [] then some .strayEnd else none
  | .content => none

/-- No token breaks a rule. -/
def IsOrderly (tokens : List Token) : Prop :=
  ∀ before t after, tokens = before ++ t :: after → violation? before t = none

/-- What is wrong with the tokens of a template of `size` bytes: the first one to break a rule, or the
innermost conditional that is left open. -/
inductive IsFlaw (size : Nat) (tokens : List Token) : Malformation → Span → Prop
  | violation {before after : List Token} {t : Token} {reason : Malformation}
      (hsplit : tokens = before ++ t :: after) (hbefore : IsOrderly before)
      (ht : violation? before t = some reason) : IsFlaw size tokens reason t.span
  | unclosed {b : Branch} (horderly : IsOrderly tokens)
      (hb : (enclosing tokens).getLast? = some b) :
      IsFlaw size tokens .missingEnd (.between b.start size)

/-- Every conditional has a condition, is divided at most once, and is closed. -/
structure IsBalanced (tokens : List Token) : Prop where
  condition : ∀ before t after condition, tokens = before ++ t :: after →
    t.role = .opening condition → condition ≠ []
  dividing : ∀ before t after, tokens = before ++ t :: after → t.role = .dividing →
    ∃ b, (enclosing before).getLast? = some b ∧ b.isOther = false
  closing : ∀ before t after, tokens = before ++ t :: after → t.role = .closing →
    enclosing before ≠ []
  closed : enclosing tokens = []

mutual

/-- The leaves below a node, each with the branches around it. -/
def Node.walk (around : List Branch) : Node → List (List Branch × Node)
  | .conditional _ body otherwise span =>
    walkAll (around ++ [⟨span.offset, false⟩]) body ++
      walkOtherwise (around ++ [⟨span.offset, true⟩]) otherwise
  | n => [(around, n)]

def Node.walkAll (around : List Branch) : List Node → List (List Branch × Node)
  | [] => []
  | n :: rest => n.walk around ++ walkAll around rest

def Node.walkOtherwise (around : List Branch) : Option (List Node) → List (List Branch × Node)
  | none => []
  | some nodes => walkAll around nodes

end

/-- What the tokens behind others give by themselves, each with the branches that it is written in. -/
def placed (before : List Token) : List Token → List (List Branch × Node)
  | [] => []
  | t :: later =>
    t.leaves.map (Prod.mk (enclosing (before ++ [t]))) ++ placed (before ++ [t]) later

variable {tokens before later inner : List Token} {nodes more : List Node} {t : Token}
  {b : OpenBlock} {s : Building} {size : Nat}

section Rules

theorem IsOrderly.of_append (h : IsOrderly (before ++ later)) : IsOrderly before := by
  intro first t after hsplit
  exact h first t (after ++ later) (by simp [hsplit])

theorem isOrderly_nil : IsOrderly [] := by
  intro before t after h
  simp at h

theorem isOrderly_snoc : IsOrderly (before ++ [t]) ↔ IsOrderly before ∧ violation? before t = none := by
  refine ⟨fun h => ⟨h.of_append, h before t [] rfl⟩, fun ⟨hbefore, ht⟩ first u after hsplit => ?_⟩
  rcases List.eq_nil_or_concat after with rfl | ⟨after, v, rfl⟩
  · obtain ⟨rfl, hu⟩ := List.append_inj' hsplit rfl
    obtain rfl := List.singleton_inj.mp hu
    exact ht
  · have hinner : before ++ [t] = (first ++ u :: after) ++ [v] := by simpa using hsplit
    obtain ⟨rfl, -⟩ := List.append_inj' hinner rfl
    exact hbefore first u after rfl

/-- Tokens that are not orderly have a first one that breaks a rule. -/
theorem exists_first_violation (h : ¬ IsOrderly tokens) : ∃ before t after reason,
    tokens = before ++ t :: after ∧ IsOrderly before ∧ violation? before t = some reason := by
  induction tokens using List.reverseRecOn with
  | nil => exact absurd isOrderly_nil h
  | append_singleton tokens u ih =>
    by_cases horderly : IsOrderly tokens
    · have hu : violation? tokens u ≠ none := fun hu => h (isOrderly_snoc.mpr ⟨horderly, hu⟩)
      obtain ⟨reason, hreason⟩ := Option.ne_none_iff_exists'.mp hu
      exact ⟨tokens, u, [], reason, rfl, horderly, hreason⟩
    · obtain ⟨before, t, after, reason, rfl, hbefore, ht⟩ := ih horderly
      exact ⟨before, t, after ++ [u], reason, by simp, hbefore, ht⟩

theorem isBalanced_iff : IsBalanced tokens ↔ IsOrderly tokens ∧ enclosing tokens = [] := by
  constructor
  · refine fun h => ⟨fun before t after hsplit => ?_, h.closed⟩
    unfold violation?
    cases hrole : t.role with
    | opening condition => simp [h.condition before t after condition hsplit hrole]
    | dividing =>
      obtain ⟨b, hb, hother⟩ := h.dividing before t after hsplit hrole
      simp [hb, hother]
    | closing => simp [h.closing before t after hsplit hrole]
    | content => rfl
  · rintro ⟨horderly, hclosed⟩
    refine ⟨?_, ?_, ?_, hclosed⟩
    · intro before t after condition hsplit hrole hnil
      simpa [violation?, hrole, hnil] using horderly before t after hsplit
    · intro before t after hsplit hrole
      have hnone := horderly before t after hsplit
      simp only [violation?, hrole] at hnone
      split at hnone
      · contradiction
      · rename_i b hb
        exact ⟨b, hb, by simpa using hnone⟩
    · intro before t after hsplit hrole hnil
      simpa [violation?, hrole, hnil] using horderly before t after hsplit

end Rules

section Reading
open Building

/-- The branch of an open conditional that is being read. -/
def OpenBlock.branch (b : OpenBlock) : Branch := ⟨b.start, b.otherwise.isSome⟩

/-- The tokens are how an open conditional was begun. -/
inductive OpenBlock.IsBegun : OpenBlock → List Token → Prop
  | body {opening : Token} {condition : List Char} {body : List Token} {bodyNodes : List Node}
      (hopening : opening.role = .opening condition) (hne : condition ≠ [])
      (hbody : IsWritten body bodyNodes) :
      IsBegun ⟨condition, opening.start, bodyNodes, none⟩ (opening :: body)
  | other {opening dividing : Token} {condition : List Char} {body other : List Token}
      {bodyNodes otherNodes : List Node} (hopening : opening.role = .opening condition)
      (hne : condition ≠ []) (hbody : IsWritten body bodyNodes)
      (hdividing : dividing.role = .dividing) (hother : IsWritten other otherNodes) :
      IsBegun ⟨condition, opening.start, bodyNodes, some (dividing.leaves ++ otherNodes)⟩
        (opening :: (body ++ dividing :: other))

/-- The tokens are what has been read so far. -/
inductive Building.IsReadFrom : Building → List Token → Prop
  | top {tokens : List Token} {nodes : List Node} (h : IsWritten tokens nodes) :
      IsReadFrom ⟨nodes, []⟩ tokens
  | within {nodes : List Node} {b : OpenBlock} {outer : List OpenBlock} {before inner : List Token}
      (h : IsReadFrom ⟨nodes, outer⟩ before) (hb : b.IsBegun inner) :
      IsReadFrom ⟨nodes, b :: outer⟩ (before ++ inner)

theorem OpenBlock.IsBegun.append (hb : b.IsBegun inner) (h : IsWritten later more) :
    (more.foldl OpenBlock.push b).IsBegun (inner ++ later) := by
  cases hb with
  | body hopening hne hbody =>
    rw [foldl_push_body]
    exact .body hopening hne (hbody.append h)
  | other hopening hne hbody hdividing hother =>
    rw [foldl_push_otherwise, List.append_assoc]
    simpa using IsBegun.other hopening hne hbody hdividing (hother.append h)

theorem Building.IsReadFrom.append (hs : s.IsReadFrom before) (h : IsWritten later more) :
    (more.foldl push s).IsReadFrom (before ++ later) := by
  cases hs with
  | top hwritten =>
    rw [foldl_push_of_no_blocks]
    exact .top (hwritten.append h)
  | within hs hb =>
    rw [foldl_push_block, List.append_assoc]
    exact .within hs (hb.append h)

/-- The end of a conditional completes it. -/
theorem OpenBlock.IsBegun.isWritten (hb : b.IsBegun inner) (ht : t.role = .closing) :
    IsWritten (inner ++ [t])
      [.conditional b.condition b.body b.otherwise (.between b.start t.stop)] := by
  cases hb with
  | body hopening hne hbody => exact .conditional hopening hne hbody ht .nil
  | other hopening hne hbody hdividing hother =>
    simpa using IsWritten.divided hopening hne hbody hdividing hother ht .nil

theorem OpenBlock.IsBegun.staysOpen (hb : b.IsBegun inner) :
    StaysOpen inner ∧ ¬ IsDivided inner := by
  cases hb with
  | @body opening _ _ _ hopening hne hbody =>
    have hone : StaysOpen [opening] := staysOpen_singleton (by simp [hopening])
    exact ⟨hone.append hbody.isSettled.staysOpen,
      not_isDivided_cons (isOpening_of_eq hopening) hbody.isSettled.staysOpen⟩
  | @other opening _ _ _ _ _ _ hopening hne hbody hdividing hother =>
    have hone : StaysOpen [opening] := staysOpen_singleton (by simp [hopening])
    obtain ⟨hinside, -⟩ := hbody.isSettled.staysOpen_divided hdividing hother.isSettled
    exact ⟨hone.append hinside, not_isDivided_cons (isOpening_of_eq hopening) hinside⟩

theorem OpenBlock.IsBegun.enclosing_eq (hb : b.IsBegun inner) : enclosing inner = [b.branch] := by
  cases hb with
  | body hopening hne hbody =>
    have hsettled := hbody.isSettled
    rw [enclosing_opening (isOpening_of_eq hopening) hsettled.staysOpen, hsettled.enclosing]
    simp [branch, hsettled.undivided]
  | @other _ dividing _ body other _ _ hopening hne hbody hdividing hother =>
    obtain ⟨hinside, hnone⟩ := hbody.isSettled.staysOpen_divided hdividing hother.isSettled
    rw [enclosing_opening (isOpening_of_eq hopening) hinside, hnone]
    have hdivided : IsDivided (body ++ dividing :: other) :=
      isDivided_iff.mpr ⟨body, dividing, other, rfl, hdividing, hbody.closings_eq⟩
    simp [branch, hdivided]

/-- The conditionals on the stack are those around the place that has been reached. -/
theorem Building.IsReadFrom.enclosing_eq (hs : s.IsReadFrom before) :
    enclosing before = (s.blocks.map OpenBlock.branch).reverse := by
  induction hs with
  | top h => exact h.isSettled.enclosing
  | within _ hb ih =>
    rw [enclosing_append hb.staysOpen.1 hb.staysOpen.2, ih, hb.enclosing_eq]
    simp

theorem Building.IsReadFrom.getLast?_enclosing (hs : s.IsReadFrom before) :
    (enclosing before).getLast? = s.blocks.head?.map OpenBlock.branch := by
  rw [hs.enclosing_eq, List.getLast?_reverse, List.head?_map]

/-- A step refuses a token that breaks a rule. -/
theorem Building.IsReadFrom.step_error {reason : Malformation} (hs : s.IsReadFrom before)
    (ht : violation? before t = some reason) : s.step t = .error (reason, t.span) := by
  have hlast := hs.getLast?_enclosing
  unfold violation? at ht
  split at ht
  · rename_i condition hrole
    rw [step_opening hrole]
    split_ifs at ht with hnil
    simpa [hnil] using ht
  · rename_i hrole
    rw [step_dividing hrole]
    rw [hlast] at ht
    cases hblocks : s.blocks with
    | nil => simpa [hblocks] using ht
    | cons b outer =>
      simp only [hblocks, List.head?_cons, Option.map_some, OpenBlock.branch] at ht
      split_ifs at ht with hother
      simpa [hother] using ht
  · rename_i hrole
    rw [step_closing hrole]
    rw [hs.enclosing_eq] at ht
    split_ifs at ht with hnone
    have hblocks : s.blocks = [] := by simpa using hnone
    simpa [hblocks] using ht
  · contradiction

/-- A step takes in every other token. -/
theorem Building.IsReadFrom.step_ok (hs : s.IsReadFrom before) (ht : violation? before t = none) :
    ∃ s', s.step t = .ok s' ∧ s'.IsReadFrom (before ++ [t]) := by
  have hlast := hs.getLast?_enclosing
  unfold violation? at ht
  split at ht
  · rename_i condition hrole
    have hne : condition ≠ [] := by simpa using ht
    exact ⟨_, by rw [step_opening hrole, if_neg hne], .within hs (.body hrole hne .nil)⟩
  · rename_i hrole
    rw [hlast] at ht
    cases hs with
    | top h => simp at ht
    | @within nodes b outer before inner hs hb =>
      -- A conditional that has been divided already would have been a violation.
      cases hb with
      | other => simp [OpenBlock.branch] at ht
      | body hopening hne hbody =>
        refine ⟨_, by rw [step_dividing hrole]; rfl, ?_⟩
        simpa using IsReadFrom.within hs (.other hopening hne hbody hrole .nil)
  · rename_i hrole
    rw [hs.enclosing_eq] at ht
    cases hs with
    | top h => simp at ht
    | @within nodes b outer before inner hs hb =>
      refine ⟨_, by rw [step_closing hrole], ?_⟩
      simpa using hs.append (hb.isWritten hrole)
  · rename_i hrole
    refine ⟨_, step_content hrole, hs.append ?_⟩
    simpa using IsWritten.content hrole .nil

/-- Orderly tokens are read to their end. -/
theorem IsOrderly.foldlM_step (h : IsOrderly tokens) :
    ∃ s, tokens.foldlM step ⟨[], []⟩ = .ok s ∧ s.IsReadFrom tokens := by
  induction tokens using List.reverseRecOn with
  | nil => exact ⟨_, rfl, .top .nil⟩
  | append_singleton before t ih =>
    obtain ⟨hbefore, ht⟩ := isOrderly_snoc.mp h
    obtain ⟨s, hrun, hs⟩ := ih hbefore
    obtain ⟨s', hstep, hs'⟩ := hs.step_ok ht
    refine ⟨s', ?_, hs'⟩
    rw [List.foldlM_append, hrun, ok_bind, List.foldlM_cons, hstep]
    rfl

end Reading

section Results

theorem IsWritten.ofTokens_eq (h : IsWritten tokens nodes) (size : Nat) :
    Node.ofTokens size tokens = .ok nodes := by
  unfold Node.ofTokens
  rw [h.foldlM_step, ok_bind, foldl_push_of_no_blocks]
  rfl

theorem IsFlaw.ofTokens_eq {reason : Malformation} {span : Span}
    (h : IsFlaw size tokens reason span) : Node.ofTokens size tokens = .error (reason, span) := by
  unfold Node.ofTokens
  cases h with
  | @violation before after t _ hsplit hbefore ht =>
    obtain ⟨s, hrun, hs⟩ := hbefore.foldlM_step
    rw [hsplit, List.foldlM_append, hrun, ok_bind, List.foldlM_cons, hs.step_error ht]
    rfl
  | @unclosed b horderly hb =>
    obtain ⟨s, hrun, hs⟩ := horderly.foldlM_step
    rw [hs.getLast?_enclosing] at hb
    obtain ⟨block, hblock, rfl⟩ := Option.map_eq_some_iff.mp hb
    rw [hrun, ok_bind]
    cases hblocks : s.blocks with
    | nil => simp [hblocks] at hblock
    | cons c outer =>
      obtain rfl : c = block := by simpa [hblocks] using hblock
      simp [Building.finish, hblocks, OpenBlock.branch]

/-- Either the tokens are how some nodes are written, or something is wrong with them. -/
theorem exists_isWritten_or_isFlaw (size : Nat) (tokens : List Token) :
    (∃ nodes, IsWritten tokens nodes) ∨ ∃ reason span, IsFlaw size tokens reason span := by
  by_cases horderly : IsOrderly tokens
  · obtain ⟨s, -, hs⟩ := horderly.foldlM_step
    cases hs with
    | top h => exact .inl ⟨_, h⟩
    | within hs hb =>
      exact .inr ⟨_, _, .unclosed horderly (hs.within hb).getLast?_enclosing⟩
  · obtain ⟨before, t, after, reason, hsplit, hbefore, ht⟩ := exists_first_violation horderly
    exact .inr ⟨reason, t.span, .violation hsplit hbefore ht⟩

theorem ofTokens_eq_ok_iff : Node.ofTokens size tokens = .ok nodes ↔ IsWritten tokens nodes := by
  refine ⟨fun h => ?_, fun h => h.ofTokens_eq size⟩
  obtain ⟨others, hothers⟩ | ⟨reason, span, hflaw⟩ := exists_isWritten_or_isFlaw size tokens
  · obtain rfl : others = nodes := by simpa [hothers.ofTokens_eq size] using h
    exact hothers
  · simp [hflaw.ofTokens_eq] at h

theorem ofTokens_eq_error_iff {reason : Malformation} {span : Span} :
    Node.ofTokens size tokens = .error (reason, span) ↔ IsFlaw size tokens reason span := by
  refine ⟨fun h => ?_, IsFlaw.ofTokens_eq⟩
  obtain ⟨nodes, hnodes⟩ | ⟨other, place, hflaw⟩ := exists_isWritten_or_isFlaw size tokens
  · simp [hnodes.ofTokens_eq size] at h
  · obtain ⟨rfl, rfl⟩ : other = reason ∧ place = span := by simpa [hflaw.ofTokens_eq] using h
    exact hflaw

theorem exists_isWritten_iff : (∃ nodes, IsWritten tokens nodes) ↔ IsBalanced tokens := by
  rw [isBalanced_iff]
  constructor
  · rintro ⟨nodes, h⟩
    refine ⟨?_, h.isSettled.enclosing⟩
    by_contra hdisorder
    obtain ⟨before, t, after, reason, hsplit, hbefore, ht⟩ := exists_first_violation hdisorder
    have hflaw : IsFlaw 0 tokens reason t.span := .violation hsplit hbefore ht
    have hboth := (h.ofTokens_eq 0).symm.trans hflaw.ofTokens_eq
    simp at hboth
  · rintro ⟨horderly, hclosed⟩
    obtain ⟨s, -, hs⟩ := horderly.foldlM_step
    cases hs with
    | top h => exact ⟨_, h⟩
    | within hs hb => simp [(hs.within hb).enclosing_eq] at hclosed

end Results

section Walk

theorem walkAll_append (around : List Branch) (nodes more : List Node) :
    Node.walkAll around (nodes ++ more) = Node.walkAll around nodes ++ Node.walkAll around more := by
  induction nodes with
  | nil => rfl
  | cons n nodes ih => simp [Node.walkAll, ih]

theorem walk_ofAction (around : List Branch) (text : List Char) (span : Span) :
    (Node.ofAction text span).walk around = [(around, .ofAction text span)] := by
  rcases Node.cases_ofAction text span with ⟨f, h⟩ | h | ⟨name, h⟩ | h <;> rw [h] <;> rfl

/-- What a token gives by itself has nothing below it. -/
theorem walkAll_leaves (around : List Branch) (t : Token) :
    Node.walkAll around t.leaves = t.leaves.map (Prod.mk around) := by
  cases t with
  | text chars start => rfl
  | action words start stop =>
    simp only [Token.leaves]
    split
    · rfl
    · split <;> rfl
    · rfl
    · simp [Node.walkAll, walk_ofAction]

theorem placed_append (before tokens later : List Token) :
    placed before (tokens ++ later) = placed before tokens ++ placed (before ++ tokens) later := by
  induction tokens generalizing before with
  | nil => simp [placed]
  | cons t tokens ih => simp [placed, ih]

theorem leaves_opening {condition : List Char} (ht : t.role = .opening condition) : t.leaves = [] := by
  cases t with
  | text chars start => contradiction
  | action words start stop =>
    have hrole : Role.ofAction words = .opening condition := ht
    simp only [Token.leaves, hrole]

theorem leaves_closing (ht : t.role = .closing) : t.leaves = [] := by
  cases t with
  | text chars start => contradiction
  | action words start stop =>
    have hrole : Role.ofAction words = .closing := ht
    simp only [Token.leaves, hrole]

theorem enclosing_snoc_opening {condition : List Char} (ht : t.role = .opening condition)
    (before : List Token) :
    enclosing (before ++ [t]) = enclosing before ++ [⟨t.start, false⟩] := by
  have hone : StaysOpen [t] := staysOpen_singleton (by simp [ht])
  rw [enclosing_append hone (not_isDivided_singleton (by simp [ht])),
    enclosing_opening (isOpening_of_eq ht) staysOpen_nil]
  simp [enclosing, isDivided_iff]

/-- Behind the action that divides a conditional one is in its other branch. -/
theorem enclosing_snoc_dividing {opening : Token} {condition : List Char} {body : List Token}
    {bodyNodes : List Node} (hopening : opening.role = .opening condition) (hne : condition ≠ [])
    (hbody : IsWritten body bodyNodes) (ht : t.role = .dividing) (before : List Token) :
    enclosing (before ++ opening :: (body ++ [t])) = enclosing before ++ [⟨opening.start, true⟩] := by
  have hb := OpenBlock.IsBegun.other hopening hne hbody ht .nil
  rw [enclosing_append hb.staysOpen.1 hb.staysOpen.2, hb.enclosing_eq]
  rfl

/-- A walk of the tree meets everything in its place. -/
theorem IsWritten.walkAll_eq (h : IsWritten tokens nodes) (before : List Token) :
    Node.walkAll (enclosing before) nodes = placed before tokens := by
  induction h generalizing before with
  | nil => rfl
  | @content t later nodes ht _ ih =>
    have hsame : enclosing (before ++ [t]) = enclosing before :=
      (IsWritten.content ht .nil).enclosing_append before
    rw [walkAll_append, walkAll_leaves, placed, ← ih, hsame]
  | @conditional opening closing condition body later bodyNodes nodes hopening hne hbody hclosing _
      ihbody ih =>
    have hblock := IsWritten.conditional hopening hne hbody hclosing .nil
    have hsame : enclosing (before ++ [opening] ++ body ++ [closing]) = enclosing before := by
      simpa using hblock.enclosing_append before
    rw [placed, placed_append, placed, leaves_opening hopening, leaves_closing hclosing, ← ihbody, ← ih,
      hsame, enclosing_snoc_opening hopening]
    simp [Node.walkAll, Node.walk, Node.walkOtherwise, Span.between]
  | @divided opening dividing closing condition body other later bodyNodes otherNodes nodes hopening hne
      hbody hdividing hother hclosing _ ihbody ihother ih =>
    have hblock := IsWritten.divided hopening hne hbody hdividing hother hclosing .nil
    have hsame : enclosing (before ++ [opening] ++ body ++ [dividing] ++ other ++ [closing]) =
        enclosing before := by
      simpa using hblock.enclosing_append before
    have hsecond : enclosing (before ++ [opening] ++ body ++ [dividing]) =
        enclosing before ++ [⟨opening.start, true⟩] := by
      simpa using enclosing_snoc_dividing hopening hne hbody hdividing before
    rw [placed, placed_append, placed, placed_append, placed, leaves_opening hopening,
      leaves_closing hclosing, ← ihbody, ← ihother, ← ih, hsame, hsecond,
      enclosing_snoc_opening hopening]
    simp [Node.walkAll, Node.walk, Node.walkOtherwise, Span.between, walkAll_append, walkAll_leaves]

end Walk

section Templates
variable {template : String} {segments : List Segment}

theorem parse_of_cut_error {offset : Nat} (h : Segment.cut 0 template.toList = .error offset) :
    parse template = .error ⟨template, .malformed .unclosedAction,
      .between offset (byteLength template.toList)⟩ := by
  unfold parse
  simp only [h]

theorem parse_of_isWritten (h : Segment.cut 0 template.toList = .ok segments)
    (hnodes : IsWritten (Token.ofSegments segments) nodes) :
    parse template = .ok ⟨template, nodes⟩ := by
  unfold parse
  simp only [h, hnodes.ofTokens_eq]

theorem parse_of_isFlaw {reason : Malformation} {span : Span}
    (h : Segment.cut 0 template.toList = .ok segments)
    (hflaw : IsFlaw (byteLength template.toList) (Token.ofSegments segments) reason span) :
    parse template = .error ⟨template, .malformed reason, span⟩ := by
  unfold parse
  simp only [h, hflaw.ofTokens_eq]

theorem isWritten_of_parse {t : NameTemplate} (h : Segment.cut 0 template.toList = .ok segments)
    (ht : parse template = .ok t) : IsWritten (Token.ofSegments segments) t.nodes := by
  obtain ⟨nodes, hnodes⟩ | ⟨reason, span, hflaw⟩ :=
    exists_isWritten_or_isFlaw (byteLength template.toList) (Token.ofSegments segments)
  · obtain rfl := Except.ok.inj ((parse_of_isWritten h hnodes).symm.trans ht)
    exact hnodes
  · have hboth := (parse_of_isFlaw h hflaw).symm.trans ht
    contradiction

theorem isFlaw_of_parse {r : Refusal} (h : Segment.cut 0 template.toList = .ok segments)
    (hr : parse template = .error r) : ∃ reason,
      IsFlaw (byteLength template.toList) (Token.ofSegments segments) reason r.span ∧
      r.template = template ∧ r.fault = .malformed reason := by
  obtain ⟨nodes, hnodes⟩ | ⟨reason, span, hflaw⟩ :=
    exists_isWritten_or_isFlaw (byteLength template.toList) (Token.ofSegments segments)
  · have hboth := (parse_of_isWritten h hnodes).symm.trans hr
    contradiction
  · obtain rfl := Except.error.inj ((parse_of_isFlaw h hflaw).symm.trans hr)
    exact ⟨reason, hflaw, rfl, rfl⟩

/-- A template that can be cut has a tree exactly if every conditional has a condition, is divided at
most once and is closed. A walk of the tree, the first branch of a conditional before the other, meets
the texts and every action that belongs to no conditional once, in the order of the template and within
the branches that they were written in. Any other template is refused for the first action that breaks
a rule, or else for the innermost conditional that is left open. -/
theorem parse_ok_iff_isBalanced (h : Segment.cut 0 template.toList = .ok segments) :
    ((∃ t, parse template = .ok t) ↔ IsBalanced (Token.ofSegments segments)) ∧
      (∀ t, parse template = .ok t →
        Node.walkAll [] t.nodes = placed [] (Token.ofSegments segments)) ∧
      ∀ r, parse template = .error r ↔ ∃ reason,
        IsFlaw (byteLength template.toList) (Token.ofSegments segments) reason r.span ∧
        r.template = template ∧ r.fault = .malformed reason := by
  refine ⟨⟨?_, fun hbalanced => ?_⟩, fun t ht => ?_, fun r => ⟨isFlaw_of_parse h, ?_⟩⟩
  · rintro ⟨t, ht⟩
    exact exists_isWritten_iff.mp ⟨t.nodes, isWritten_of_parse h ht⟩
  · obtain ⟨nodes, hnodes⟩ := exists_isWritten_iff.mpr hbalanced
    exact ⟨_, parse_of_isWritten h hnodes⟩
  · exact (isWritten_of_parse h ht).walkAll_eq []
  · obtain ⟨source, fault, span⟩ := r
    rintro ⟨reason, hflaw, rfl, rfl⟩
    exact parse_of_isFlaw h hflaw

/-- A conditional with both branches, and another one within each of them. -/
def nestedTemplate : String :=
  "\x7b\x7b if .A \x7d\x7da\x7b\x7b if .B \x7d\x7d\x7b\x7b .Os \x7d\x7d\x7b\x7b end \x7d\x7d" ++
  "\x7b\x7b else if .C \x7d\x7d\x7b\x7b if .D \x7d\x7db\x7b\x7b else \x7d\x7dc\x7b\x7b end \x7d\x7d" ++
  "\x7b\x7b end \x7d\x7d"

theorem parse_ok_iff_isBalanced_nested : ∃ segments t,
    Segment.cut 0 nestedTemplate.toList = .ok segments ∧ parse nestedTemplate = .ok t ∧
    IsBalanced (Token.ofSegments segments) ∧
    Node.walkAll [] t.nodes = placed [] (Token.ofSegments segments) ∧
    (Node.walkAll [] t.nodes).map Prod.fst =
      [[⟨0, false⟩], [⟨0, false⟩, ⟨12, false⟩], [⟨0, true⟩], [⟨0, true⟩, ⟨57, false⟩],
        [⟨0, true⟩, ⟨57, true⟩]] := by
  have hcut : (Segment.cut 0 nestedTemplate.toList).toOption.isSome = true := by decide +kernel
  obtain ⟨segments, hsegments⟩ := Option.isSome_iff_exists.mp hcut
  have hparse : (parse nestedTemplate).toOption.isSome = true := by decide +kernel
  obtain ⟨t, ht⟩ := Option.isSome_iff_exists.mp hparse
  have hbranches : ∀ t ∈ (parse nestedTemplate).toOption, (Node.walkAll [] t.nodes).map Prod.fst =
      [[⟨0, false⟩], [⟨0, false⟩, ⟨12, false⟩], [⟨0, true⟩], [⟨0, true⟩, ⟨57, false⟩],
        [⟨0, true⟩, ⟨57, true⟩]] := by decide +kernel
  obtain ⟨hiff, hwalk, -⟩ := parse_ok_iff_isBalanced (toOption_eq_some_iff.mp hsegments)
  have htree := toOption_eq_some_iff.mp ht
  exact ⟨segments, t, toOption_eq_some_iff.mp hsegments, htree, hiff.mp ⟨t, htree⟩, hwalk t htree,
    hbranches t ht⟩

end Templates

end ReleaseInstaller.NameTemplate
