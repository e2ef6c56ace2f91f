import ReleaseInstaller.Proofs.Except
import ReleaseInstaller.Proofs.NameTemplate.Nesting

/-! The tree of a template against the tokens that it is written with. There is one exactly if every
action obeys the rules of conditionals and none is left open, and then every token is in its place. -/
namespace ReleaseInstaller.NameTemplate
open Text

/-- The tokens are how the nodes are written: a conditional by an action that opens it, its branches with
one that divides them, and one that closes it. -/
inductive IsWritten : List Token → List Node → Prop
  | nil : IsWritten [] []
  | content {t : Token} {later : List Token} {nodes : List Node} (ht : t.role = .content)
      (h : IsWritten later nodes) : IsWritten (t :: later) (t.leaves ++ nodes)
  | conditional {opening closing : Token} {condition : List Char} {body later : List Token}
      {bodyNodes nodes : List Node} (hopening : opening.role = .opening condition)
      (hne : condition ≠ []) (hbody : IsWritten body bodyNodes)
      (hclosing : closing.role = .closing) (h : IsWritten later nodes) :
      IsWritten (opening :: (body ++ closing :: later))
        (.conditional condition bodyNodes none (.between opening.start closing.stop) :: nodes)
  | divided {opening dividing closing : Token} {condition : List Char}
      {body other later : List Token} {bodyNodes otherNodes nodes : List Node}
      (hopening : opening.role = .opening condition) (hne : condition ≠ [])
      (hbody : IsWritten body bodyNodes) (hdividing : dividing.role = .dividing)
      (hother : IsWritten other otherNodes) (hclosing : closing.role = .closing)
      (h : IsWritten later nodes) :
      IsWritten (opening :: (body ++ dividing :: (other ++ closing :: later)))
        (.conditional condition bodyNodes (some (dividing.leaves ++ otherNodes))
          (.between opening.start closing.stop) :: nodes)

variable {tokens before later : List Token} {nodes : List Node} {t : Token} {s : Building}

theorem IsWritten.append {more : List Token} {moreNodes : List Node} (h : IsWritten tokens nodes)
    (hmore : IsWritten more moreNodes) : IsWritten (tokens ++ more) (nodes ++ moreNodes) := by
  induction h with
  | nil => exact hmore
  | content ht _ ih =>
    rw [List.append_assoc]
    exact .content ht ih
  | conditional hopening hne hbody hclosing _ _ ih =>
    simpa using IsWritten.conditional hopening hne hbody hclosing ih
  | divided hopening hne hbody hdividing hother hclosing _ _ _ ih =>
    simpa using IsWritten.divided hopening hne hbody hdividing hother hclosing ih

section Leaves

theorem Node.cases_ofFieldName (name : List Char) (span : Span) :
    (∃ f, ofFieldName name span = .field f span) ∨ ofFieldName name span = .arm span ∨
      ofFieldName name span = .unknown name span := by
  unfold ofFieldName
  split_ifs
  · exact .inr (.inl rfl)
  · split
    · exact .inl ⟨_, rfl⟩
    · exact .inr (.inr rfl)

/-- An action by itself holds a name, with or without a dot, or it is kept as it is. -/
theorem Node.ofAction_eq (text : List Char) (span : Span) :
    ofAction text span = .unsupported text span ∨
      ∃ name, ofAction text span = ofFieldName name span ∧ (text = name ∨ text = '.' :: name) := by
  unfold ofAction
  split
  · split_ifs
    · exact .inr ⟨_, rfl, .inr rfl⟩
    · exact .inl rfl
  · split_ifs
    · exact .inr ⟨_, rfl, .inl rfl⟩
    · exact .inl rfl
  · exact .inl rfl

theorem Node.cases_ofAction (text : List Char) (span : Span) :
    (∃ f, ofAction text span = .field f span) ∨ ofAction text span = .arm span ∨
      (∃ name, ofAction text span = .unknown name span) ∨
      ofAction text span = .unsupported text span := by
  rcases ofAction_eq text span with hkept | ⟨name, hname, -⟩
  · exact .inr (.inr (.inr hkept))
  · rw [hname]
    rcases cases_ofFieldName name span with hfield | harm | hunknown
    · exact .inl hfield
    · exact .inr (.inl harm)
    · exact .inr (.inr (.inl ⟨name, hunknown⟩))

end Leaves

section Nesting

theorem isOpening_of_eq {condition : List Char} (ht : t.role = .opening condition) :
    t.role.isOpening = true := by
  rw [ht]
  rfl

theorem not_isDivided_singleton (ht : t.role ≠ .dividing) : ¬ IsDivided [t] := by
  intro h
  rw [← List.nil_append [t], isDivided_snoc ht] at h
  obtain ⟨before, d, after, heq, -⟩ := isDivided_iff.mp h
  simp at heq

theorem IsWritten.closings_eq (h : IsWritten tokens nodes) : closings tokens = openings tokens := by
  induction h with
  | nil => rfl
  | content ht _ ih => simp [openings_cons, closings_cons, ht, ih, Role.isOpening]
  | conditional hopening _ _ hclosing _ ihbody ih =>
    simp [openings_cons, closings_cons, hopening, hclosing, ihbody, ih, Role.isOpening]
    omega
  | divided hopening _ _ hdividing _ hclosing _ ihbody ihother ih =>
    simp [openings_cons, closings_cons, hopening, hdividing, hclosing, ihbody, ihother, ih,
      Role.isOpening]
    omega

/-- The tokens leave a place in the branches that it is in, and those as they are. -/
structure IsSettled (tokens : List Token) : Prop where
  staysOpen : StaysOpen tokens
  undivided : ¬ IsDivided tokens
  enclosing : enclosing tokens = []

theorem isSettled_nil : IsSettled [] := ⟨staysOpen_nil, by simp [isDivided_iff], rfl⟩

theorem IsSettled.content (h : IsSettled later) (ht : t.role = .content) :
    IsSettled (t :: later) := by
  have hone : StaysOpen [t] := staysOpen_singleton (by simp [ht])
  refine ⟨hone.append h.staysOpen, ?_, ?_⟩
  · rw [← List.singleton_append, isDivided_append hone h.staysOpen h.undivided]
    exact not_isDivided_singleton (by simp [ht])
  · rw [enclosing_cons_of_not_opening (by simp [ht, Role.isOpening]), h.enclosing]

/-- A conditional is settled whether it is divided or not: its end is the first place where more
conditionals have been closed than opened since it began. -/
theorem IsSettled.block {inner : List Token} {opening closing : Token} (h : IsSettled later)
    (hopening : opening.role.isOpening = true) (hclosing : closing.role = .closing)
    (hinner : StaysOpen inner) (hlevel : closings inner = openings inner)
    (hnone : NameTemplate.enclosing inner = []) :
    IsSettled (opening :: (inner ++ closing :: later)) := by
  have hne : opening.role ≠ .closing := by
    intro heq
    simp [heq, Role.isOpening] at hopening
  have hopen : StaysOpen (opening :: inner) := (staysOpen_singleton hne).append hinner
  have hlt : closings (opening :: inner) < openings (opening :: inner) := by
    simp [openings_cons, closings_cons, hopening, hne]
    omega
  have hstays : StaysOpen (opening :: inner ++ [closing]) := hopen.snoc hlt closing
  have hundivided : ¬ IsDivided (opening :: inner ++ [closing]) := by
    rw [isDivided_snoc (by simp [hclosing])]
    exact not_isDivided_cons hopening hinner
  have hsplit : opening :: (inner ++ closing :: later) = (opening :: inner ++ [closing]) ++ later := by
    simp
  refine ⟨?_, ?_, ?_⟩
  · rw [hsplit]
    exact hstays.append h.staysOpen
  · rwa [hsplit, isDivided_append hstays h.staysOpen h.undivided]
  · have hclosed : ¬ StaysOpen (inner ++ closing :: later) :=
      not_staysOpen_of_closing hlevel hclosing later
    rw [NameTemplate.enclosing, if_neg fun hall => hclosed hall.2,
      enclosing_append_of_eq_nil hnone,
      enclosing_cons_of_not_opening (by simp [hclosing, Role.isOpening]), h.enclosing]

/-- The inside of a conditional with both branches is settled but for the action that divides it. -/
theorem IsSettled.staysOpen_divided {body other : List Token} {dividing : Token}
    (hbody : IsSettled body) (hdividing : dividing.role = .dividing) (hother : IsSettled other) :
    StaysOpen (body ++ dividing :: other) ∧
      NameTemplate.enclosing (body ++ dividing :: other) = [] := by
  have hone : StaysOpen [dividing] := staysOpen_singleton (by simp [hdividing])
  refine ⟨hbody.staysOpen.append (hone.append hother.staysOpen), ?_⟩
  rw [enclosing_append_of_eq_nil hbody.enclosing,
    enclosing_cons_of_not_opening (by simp [hdividing, Role.isOpening]), hother.enclosing]

theorem IsWritten.isSettled (h : IsWritten tokens nodes) : IsSettled tokens := by
  induction h with
  | nil => exact isSettled_nil
  | content ht _ ih => exact ih.content ht
  | conditional hopening _ hbody hclosing _ ihbody ih =>
    exact ih.block (isOpening_of_eq hopening) hclosing ihbody.staysOpen hbody.closings_eq
      ihbody.enclosing
  | @divided opening dividing closing condition body other later _ _ _ hopening _ hbody hdividing
      hother hclosing _ ihbody ihother ih =>
    obtain ⟨hinner, hnone⟩ := ihbody.staysOpen_divided hdividing ihother
    have hlevel : closings (body ++ dividing :: other) = openings (body ++ dividing :: other) := by
      simp [openings_cons, closings_cons, hdividing, Role.isOpening, hbody.closings_eq,
        hother.closings_eq]
    have hblock := ih.block (isOpening_of_eq hopening) hclosing hinner hlevel hnone
    simpa using hblock

theorem IsWritten.enclosing_append (h : IsWritten tokens nodes) (before : List Token) :
    enclosing (before ++ tokens) = enclosing before := by
  rw [NameTemplate.enclosing_append h.isSettled.staysOpen h.isSettled.undivided,
    h.isSettled.enclosing, List.append_nil]

end Nesting

section Building
open Building

/-- What a token does to the conditionals that are open, by its first word. -/
theorem step_content (ht : t.role = .content) : s.step t = .ok (t.leaves.foldl push s) := by
  cases t with
  | text chars start => rfl
  | action words start stop =>
    have hrole : Role.ofAction words = .content := ht
    simp only [Token.leaves, hrole, List.foldl_cons, List.foldl_nil]
    unfold Role.ofAction at hrole
    split_ifs at hrole with hif helse hend
    simp only [step, action, hif, helse, hend, if_false]

theorem step_opening {condition : List Char} (ht : t.role = .opening condition) :
    s.step t = if condition = [] then .error (.missingCondition, t.span)
      else .ok { s with blocks := ⟨condition, t.start, [], none⟩ :: s.blocks } := by
  cases t with
  | text chars start => contradiction
  | action words start stop =>
    have hrole : Role.ofAction words = .opening condition := ht
    unfold Role.ofAction at hrole
    split_ifs at hrole with hif
    obtain rfl := Role.opening.inj hrole
    simp only [step, action, hif, if_true]
    rfl

theorem step_dividing (ht : t.role = .dividing) :
    s.step t = match s.blocks with
      | [] => .error (.strayElse, t.span)
      | b :: outer =>
        if b.otherwise.isSome then .error (.secondElse, t.span)
        else .ok { s with blocks := { b with otherwise := some t.leaves } :: outer } := by
  cases t with
  | text chars start => contradiction
  | action words start stop =>
    have hrole : Role.ofAction words = .dividing := ht
    simp only [Token.leaves, hrole]
    unfold Role.ofAction at hrole
    split_ifs at hrole with hif helse
    simp only [step, action, helse, if_true]
    rfl

theorem step_closing (ht : t.role = .closing) :
    s.step t = match s.blocks with
      | [] => .error (.strayEnd, t.span)
      | b :: outer =>
        .ok (push { s with blocks := outer }
          (.conditional b.condition b.body b.otherwise (.between b.start t.stop))) := by
  cases t with
  | text chars start => contradiction
  | action words start stop =>
    have hrole : Role.ofAction words = .closing := ht
    unfold Role.ofAction at hrole
    split_ifs at hrole with hif helse hend
    simp only [step, action, hend, if_true]
    rfl

theorem foldl_push_of_no_blocks (nodes more : List Node) :
    more.foldl push ⟨nodes, []⟩ = ⟨nodes ++ more, []⟩ := by
  induction more generalizing nodes with
  | nil => simp
  | cons n more ih => simp [push, ih]

theorem foldl_push_block (nodes more : List Node) (b : OpenBlock) (outer : List OpenBlock) :
    more.foldl push ⟨nodes, b :: outer⟩ = ⟨nodes, more.foldl OpenBlock.push b :: outer⟩ := by
  induction more generalizing b with
  | nil => rfl
  | cons n more ih => simp [push, ih]

theorem foldl_push_body (condition : List Char) (start : Nat) (body more : List Node) :
    more.foldl OpenBlock.push ⟨condition, start, body, none⟩ =
      ⟨condition, start, body ++ more, none⟩ := by
  induction more generalizing body with
  | nil => simp
  | cons n more ih => simp [OpenBlock.push, ih]

theorem foldl_push_otherwise (condition : List Char) (start : Nat) (body other more : List Node) :
    more.foldl OpenBlock.push ⟨condition, start, body, some other⟩ =
      ⟨condition, start, body, some (other ++ more)⟩ := by
  induction more generalizing other with
  | nil => simp
  | cons n more ih => simp [OpenBlock.push, ih]

/-- Reading what nodes are written with adds the nodes, wherever it is read. -/
theorem IsWritten.foldlM_step (h : IsWritten tokens nodes) (s : Building) :
    tokens.foldlM step s = .ok (nodes.foldl push s) := by
  induction h generalizing s with
  | nil => rfl
  | content ht _ ih => rw [List.foldlM_cons, step_content ht, ok_bind, ih, List.foldl_append]
  | conditional hopening hne hbody hclosing _ ihbody ih =>
    rw [List.foldlM_cons, step_opening hopening, if_neg hne, ok_bind, List.foldlM_append, ihbody,
      ok_bind, foldl_push_block, foldl_push_body, List.foldlM_cons, step_closing hclosing]
    exact ih _
  | divided hopening hne hbody hdividing hother hclosing _ ihbody ihother ih =>
    rw [List.foldlM_cons, step_opening hopening, if_neg hne, ok_bind, List.foldlM_append, ihbody,
      ok_bind, foldl_push_block, foldl_push_body, List.foldlM_cons, step_dividing hdividing]
    dsimp only [Option.isSome_none]
    rw [if_neg (by simp), ok_bind, List.foldlM_append, ihother, ok_bind, foldl_push_block,
      foldl_push_otherwise, List.foldlM_cons, step_closing hclosing]
    exact ih _

end Building

end ReleaseInstaller.NameTemplate
