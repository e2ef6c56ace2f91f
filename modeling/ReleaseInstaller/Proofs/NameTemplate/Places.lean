import ReleaseInstaller.Proofs.NameTemplate.Actions
import ReleaseInstaller.Proofs.NameTemplate.Balance
import ReleaseInstaller.Proofs.Text.Span

/-! Where in a template its tokens and nodes are. Every span goes from one character to another, and what
is under it is what the node was read from. -/
namespace ReleaseInstaller.NameTemplate
open Text

/-- A text with the braces of an action around it. -/
def braced (body : List Char) : List Char := '\x7b' :: '\x7b' :: (body ++ ['\x7d', '\x7d'])

/-- A whole action as it is written, and what it does. -/
def IsAction (written text : List Char) : Prop :=
  ∃ body, written = braced body ∧ IsBeforePair '\x7d' body ∧ (Action.ofBody body 0).text = text

/-- One action as it is written, with the text somewhere between its braces. -/
def Encloses (written text : List Char) : Prop :=
  ∃ before after, written = braced (before ++ text ++ after) ∧
    IsBeforePair '\x7d' (before ++ text ++ after)

/-- The token is what the template has under the span of the token. -/
inductive Token.IsPlaced (template : List Char) : Token → Prop
  | text {chars : List Char} {start : Nat} (hne : chars ≠ [])
      (h : (Span.between start (start + byteLength chars)).IsOver template chars) :
      IsPlaced template (.text chars start)
  | action {written text : List Char} {start stop : Nat} (hwritten : IsAction written text)
      (hlt : start < stop) (h : (Span.between start stop).IsOver template written) :
      IsPlaced template (.action text start stop)

/-- The tokens are in the template one after the other. -/
structure ArePlaced (template : List Char) (tokens : List Token) : Prop where
  placed : ∀ t ∈ tokens, t.IsPlaced template
  ordered : tokens.Pairwise fun t u => t.stop ≤ u.start

namespace Node

/-- The nodes right below a conditional, in both of its branches. -/
def children : Node → List Node
  | conditional _ body otherwise _ => body ++ otherwise.getD []
  | _ => []

/-- A node of a tree, at any depth. -/
inductive Occurs (nodes : List Node) : Node → Prop
  | root {n : Node} (h : n ∈ nodes) : Occurs nodes n
  | child {m n : Node} (hm : Occurs nodes m) (hn : n ∈ m.children) : Occurs nodes n

/-- The one node ends before the other begins. -/
def IsBefore (n m : Node) : Prop := n.span.stop ≤ m.span.offset

/-- The node is what the template has under its span: the text itself, or an action that holds the name
or the words, or everything from the action that opens a conditional up to the one that closes it. -/
def IsPlaced (template : List Char) : Node → Prop
  | literal text span => span.IsOver template text
  | field f span => ∃ written name, span.IsOver template written ∧ Encloses written name ∧
      Field.ofName? (String.ofList name) = some f
  | arm span => ∃ written, span.IsOver template written ∧ Encloses written "Arm".toList
  | unknown name span => ∃ written, span.IsOver template written ∧ Encloses written name
  | unsupported action span => ∃ written, span.IsOver template written ∧ Encloses written action
  | conditional condition body otherwise span =>
    (∃ opening mid closing first last, span.IsOver template (opening ++ mid ++ closing) ∧
      IsAction opening first ∧ Role.ofAction first = .opening condition ∧
      IsAction closing last ∧ Role.ofAction last = .closing) ∧
    (∀ n ∈ body ++ otherwise.getD [], span.offset < n.span.offset ∧ n.span.stop < span.stop) ∧
    (body ++ otherwise.getD []).Pairwise IsBefore

end Node

/-- What a refusal says of the template's own text. -/
def Fault.reported : Fault → List Char
  | .unsafeChar c => [c]
  | .unknownField name => name
  | .unsupportedAction action => action
  | .malformed _ | .conditional => []

variable {template s written text body first : List Char} {tokens later : List Token}
  {nodes more : List Node} {t : Token} {n : Node} {clauses : List Clause}

section Actions

theorem braced_append (body after : List Char) :
    braced body ++ after = '\x7b' :: '\x7b' :: (body ++ '\x7d' :: '\x7d' :: after) := by
  simp [braced]

theorem byteLength_braced (body : List Char) : byteLength (braced body) = 4 + byteLength body := by
  have hopen : '\x7b'.utf8Size = 1 := by decide
  have hclose : '\x7d'.utf8Size = 1 := by decide
  simp only [braced, byteLength_cons, byteLength_append, byteLength_nil, hopen, hclose]
  omega

theorem stop_ofBody (before body : List Char) :
    (Action.ofBody body (byteLength before)).stop = byteLength (before ++ braced body) := by
  rw [byteLength_append, byteLength_braced, ← Nat.add_assoc]
  rfl

theorem afterMarker?_eq_some {rest : List Char} (h : afterMarker? body = some rest) :
    body = '-' :: rest := by
  unfold afterMarker? at h
  split at h
  · split at h
    · rw [← Option.some.inj h]
    · contradiction
  · contradiction

theorem beforeMarker?_eq_some {rest : List Char} (h : beforeMarker? body = some rest) :
    body = rest ++ ['-'] := by
  obtain ⟨reversed, hreversed, rfl⟩ := Option.map_eq_some_iff.mp h
  rw [← body.reverse_reverse, afterMarker?_eq_some hreversed, List.reverse_cons]

/-- Markers and blanks are around what the action does. -/
theorem text_infix_body (body : List Char) (start : Nat) :
    (Action.ofBody body start).text <:+: body := by
  have hafter : (afterMarker? body).getD body <:+ body := by
    cases h : afterMarker? body with
    | none => exact List.suffix_rfl
    | some rest => exact ⟨['-'], (afterMarker?_eq_some h).symm⟩
  have hbefore (inner : List Char) : (beforeMarker? inner).getD inner <+: inner := by
    cases h : beforeMarker? inner with
    | none => exact List.prefix_rfl
    | some rest => exact ⟨['-'], (beforeMarker?_eq_some h).symm⟩
  have htrim (inner : List Char) : trim inner <:+: inner := by
    obtain ⟨lead, trail, h, -⟩ := exists_trim inner
    exact ⟨lead, trail, h.symm⟩
  exact (htrim _).trans ((hbefore _).isInfix.trans hafter.isInfix)

theorem IsAction.encloses (h : IsAction written text) : Encloses written text := by
  obtain ⟨body, rfl, hbrace, rfl⟩ := h
  obtain ⟨before, after, hbody⟩ := text_infix_body body 0
  exact ⟨before, after, by rw [hbody], by rwa [hbody]⟩

theorem Encloses.of_dotted (h : Encloses written ('.' :: text)) : Encloses written text := by
  obtain ⟨before, after, rfl, hbrace⟩ := h
  exact ⟨before ++ ['.'], after, by simp, by simpa using hbrace⟩

theorem Encloses.infix (h : Encloses written text) : text <:+: written := by
  obtain ⟨before, after, rfl, -⟩ := h
  exact ⟨'\x7b' :: '\x7b' :: before, after ++ ['\x7d', '\x7d'], by simp [braced]⟩

end Actions

section Tokens

theorem Token.IsPlaced.start_lt_stop (h : t.IsPlaced template) : t.start < t.stop := by
  cases h with
  | @text chars start hne h =>
    have hle := length_le_byteLength chars
    have hpos := List.length_pos_iff.mpr hne
    simp only [Token.start, Token.stop]
    omega
  | action hwritten hlt h => exact hlt

theorem Token.IsPlaced.exists_isOver (h : t.IsPlaced template) :
    ∃ under, t.span.IsOver template under := by
  cases h with
  | text hne h => exact ⟨_, h⟩
  | action hwritten hlt h => exact ⟨_, h⟩

theorem Token.IsPlaced.stop_span (h : t.IsPlaced template) : t.span.stop = t.stop :=
  Span.stop_between h.start_lt_stop.le

theorem arePlaced_nil : ArePlaced template [] := ⟨by simp, .nil⟩

theorem arePlaced_append : ArePlaced template (tokens ++ later) ↔ ArePlaced template tokens ∧
    ArePlaced template later ∧ ∀ t ∈ tokens, ∀ u ∈ later, t.stop ≤ u.start := by
  constructor
  · rintro ⟨hplaced, hordered⟩
    obtain ⟨htokens, hlater⟩ := List.forall_mem_append.mp hplaced
    obtain ⟨hfirst, hrest, hcross⟩ := List.pairwise_append.mp hordered
    exact ⟨⟨htokens, hfirst⟩, ⟨hlater, hrest⟩, hcross⟩
  · rintro ⟨htokens, hlater, hcross⟩
    exact ⟨List.forall_mem_append.mpr ⟨htokens.placed, hlater.placed⟩,
      List.pairwise_append.mpr ⟨htokens.ordered, hlater.ordered, hcross⟩⟩

theorem arePlaced_cons : ArePlaced template (t :: later) ↔ t.IsPlaced template ∧
    ArePlaced template later ∧ ∀ u ∈ later, t.stop ≤ u.start := by
  constructor
  · rintro ⟨hplaced, hordered⟩
    obtain ⟨ht, hlater⟩ := List.forall_mem_cons.mp hplaced
    obtain ⟨hcross, hrest⟩ := List.pairwise_cons.mp hordered
    exact ⟨ht, ⟨hlater, hrest⟩, hcross⟩
  · rintro ⟨ht, hlater, hcross⟩
    exact ⟨List.forall_mem_cons.mpr ⟨ht, hlater.placed⟩,
      List.pairwise_cons.mpr ⟨hcross, hlater.ordered⟩⟩

/-- What trimming leaves of a text is in the template where the text was. -/
theorem arePlaced_textTokens (before chars after : List Char) (trimsStart trimsEnd : Bool) :
    ArePlaced (before ++ chars ++ after)
        (textTokens (byteLength before) trimsStart trimsEnd chars) ∧
      ∀ t ∈ textTokens (byteLength before) trimsStart trimsEnd chars,
        byteLength before ≤ t.start ∧ t.stop ≤ byteLength before + byteLength chars := by
  obtain ⟨lead, left, trail, hchars, hkept, hleft, -⟩ := exists_kept trimsStart trimsEnd chars
  have hstart : byteLength before + (byteLength chars - byteLength (left ++ trail)) =
      byteLength (before ++ lead) := by
    rw [hchars]
    simp only [byteLength_append]
    omega
  simp only [textTokens, hkept, hleft, hstart]
  split_ifs with hnil
  · exact ⟨arePlaced_nil, by simp⟩
  · have hover := Span.isOver_between (before ++ lead) left (trail ++ after)
    have htemplate : before ++ chars ++ after = before ++ lead ++ left ++ (trail ++ after) := by
      rw [hchars]
      simp
    rw [← htemplate] at hover
    refine ⟨⟨?_, List.pairwise_singleton _ _⟩, ?_⟩
    · simpa using Token.IsPlaced.text hnil hover
    · rw [hchars]
      simp [Token.start, Token.stop]
      omega

theorem arePlaced_clause (before after : List Char) (c : Clause) (hbody : IsBeforePair '\x7d' c.body) :
    ArePlaced (before ++ (braced c.body ++ after)) (c.tokens (byteLength before)) ∧
      ∀ t ∈ c.tokens (byteLength before), byteLength before ≤ t.start ∧
        t.stop ≤ byteLength (before ++ braced c.body) := by
  unfold Clause.tokens
  split_ifs
  · exact ⟨arePlaced_nil, by simp⟩
  · have hover := Span.isOver_between before (braced c.body) after
    rw [List.append_assoc, ← byteLength_append] at hover
    have hlt : byteLength before < byteLength (before ++ braced c.body) := by
      rw [byteLength_append, byteLength_braced]
      omega
    rw [stop_ofBody]
    refine ⟨⟨?_, List.pairwise_singleton _ _⟩, by simp [Token.start, Token.stop]⟩
    intro t ht
    rw [List.mem_singleton.mp ht]
    exact .action ⟨c.body, rfl, hbody, rfl⟩ hlt hover

/-- The tokens of a template that is cut are in it. -/
theorem IsCut.arePlaced (h : IsCut s first clauses) (reached : List Clause → Bool)
    (before : List Char) (trimmed : Bool) :
    ArePlaced (before ++ s) (tokensBy reached (byteLength before) trimmed first clauses) ∧
      ∀ t ∈ tokensBy reached (byteLength before) trimmed first clauses,
        byteLength before ≤ t.start := by
  induction h generalizing before trimmed with
  | @text s h =>
    obtain ⟨hplaced, hin⟩ := arePlaced_textTokens before s [] trimmed (reached [])
    rw [List.append_nil] at hplaced
    exact ⟨hplaced, fun t ht => (hin t ht).1⟩
  | @action first body rest after clauses hfirst hbody _ ih =>
    obtain ⟨htext, htextIn⟩ := arePlaced_textTokens before first (braced body ++ rest) trimmed
      (reached (⟨body, after⟩ :: clauses))
    obtain ⟨hclause, hclauseIn⟩ := arePlaced_clause (before ++ first) rest ⟨body, after⟩ hbody
    obtain ⟨hrest, hrestIn⟩ := ih (before ++ first ++ braced body)
      (Clause.ClosesWithMarker ⟨body, after⟩)
    have hlength : byteLength before + byteLength first = byteLength (before ++ first) := by simp
    have hgrow : byteLength (before ++ first) ≤ byteLength (before ++ first ++ braced body) := by
      rw [byteLength_append _ (braced body)]
      omega
    have htemplate : before ++ (first ++ '\x7b' :: '\x7b' :: (body ++ '\x7d' :: '\x7d' :: rest)) =
        before ++ first ++ (braced body ++ rest) := by
      rw [braced_append, List.append_assoc]
    rw [List.append_assoc (before ++ first)] at hrest
    rw [htemplate, tokensBy, hlength, stop_ofBody]
    refine ⟨arePlaced_append.mpr ⟨arePlaced_append.mpr ⟨htext, hclause, ?_⟩, hrest, ?_⟩, ?_⟩
    · intro t ht u hu
      have hstop := (htextIn t ht).2
      have hstart := (hclauseIn u hu).1
      omega
    · intro t ht u hu
      have hstart := hrestIn u hu
      rcases List.mem_append.mp ht with ht | ht
      · have hstop := (htextIn t ht).2
        omega
      · exact (hclauseIn t ht).2.trans hstart
    · intro t ht
      rcases List.mem_append.mp ht with ht | ht
      · rcases List.mem_append.mp ht with ht | ht
        · exact (htextIn t ht).1
        · have hstart := (hclauseIn t ht).1
          omega
      · have hstart := hrestIn t ht
        omega

end Tokens

section Nodes
open Node

theorem Node.not_occurs_nil (n : Node) : ¬ Occurs [] n := by
  intro h
  induction h with
  | root h => simp at h
  | child _ _ ih => exact ih

theorem Node.Occurs.of_append (h : Occurs (nodes ++ more) n) : Occurs nodes n ∨ Occurs more n := by
  induction h with
  | root h =>
    rcases List.mem_append.mp h with h | h
    · exact .inl (.root h)
    · exact .inr (.root h)
  | child _ hn ih =>
    rcases ih with h | h
    · exact .inl (h.child hn)
    · exact .inr (h.child hn)

theorem Node.Occurs.of_singleton {m : Node} (h : Occurs [m] n) : n = m ∨ Occurs m.children n := by
  induction h with
  | root h => exact .inl (List.mem_singleton.mp h)
  | child _ hn ih =>
    rcases ih with rfl | h
    · exact .inr (.root hn)
    · exact .inr (h.child hn)

/-- Nodes that are read from tokens are in the template one after the other, where the tokens are. -/
structure Follow (template : List Char) (tokens : List Token) (nodes : List Node) : Prop where
  placed : ∀ n, Occurs nodes n → n.IsPlaced template
  ordered : nodes.Pairwise IsBefore
  within : ∀ n ∈ nodes, ∃ t ∈ tokens, ∃ u ∈ tokens, n.span.offset = t.start ∧ n.span.stop = u.stop

theorem follow_nil : Follow template tokens [] where
  placed := fun n h => absurd h (not_occurs_nil n)
  ordered := .nil
  within := by simp

theorem Follow.append (h : Follow template tokens nodes) (hmore : Follow template later more)
    (hcross : ∀ t ∈ tokens, ∀ u ∈ later, t.stop ≤ u.start) :
    Follow template (tokens ++ later) (nodes ++ more) where
  placed := by
    intro n hn
    rcases hn.of_append with hn | hn
    · exact h.placed n hn
    · exact hmore.placed n hn
  ordered := by
    refine List.pairwise_append.mpr ⟨h.ordered, hmore.ordered, fun n hn m hm => ?_⟩
    obtain ⟨-, -, u, hu, -, hstop⟩ := h.within n hn
    obtain ⟨t, ht, -, -, hstart, -⟩ := hmore.within m hm
    have hlt := hcross u hu t ht
    simp only [IsBefore]
    omega
  within := by
    intro n hn
    rcases List.mem_append.mp hn with hn | hn
    · obtain ⟨t, ht, u, hu, hspan⟩ := h.within n hn
      exact ⟨t, List.mem_append_left _ ht, u, List.mem_append_left _ hu, hspan⟩
    · obtain ⟨t, ht, u, hu, hspan⟩ := hmore.within n hn
      exact ⟨t, List.mem_append_right _ ht, u, List.mem_append_right _ hu, hspan⟩

/-- A node with nothing below it, read from one token. -/
theorem follow_leaf (hchildren : n.children = []) (hplaced : n.IsPlaced template)
    (hspan : n.span = t.span) (ht : t.IsPlaced template) : Follow template [t] [n] where
  placed := by
    intro m hm
    rcases hm.of_singleton with rfl | hm
    · exact hplaced
    · rw [hchildren] at hm
      exact absurd hm (not_occurs_nil m)
  ordered := List.pairwise_singleton _ _
  within := by
    intro m hm
    rw [List.mem_singleton.mp hm, hspan]
    exact ⟨t, List.mem_singleton_self t, t, List.mem_singleton_self t, rfl, ht.stop_span⟩

theorem children_ofAction (text : List Char) (span : Span) : (ofAction text span).children = [] := by
  rcases cases_ofAction text span with ⟨f, h⟩ | h | ⟨name, h⟩ | h <;> rw [h] <;> rfl

theorem span_ofAction (text : List Char) (span : Span) : (ofAction text span).span = span := by
  rcases cases_ofAction text span with ⟨f, h⟩ | h | ⟨name, h⟩ | h <;> rw [h] <;> rfl

theorem isPlaced_ofFieldName {span : Span} {name : List Char} (hover : span.IsOver template written)
    (h : Encloses written name) : (ofFieldName name span).IsPlaced template := by
  unfold ofFieldName
  split_ifs with harm
  · rw [harm] at h
    exact ⟨written, hover, h⟩
  · split
    · rename_i f hf
      exact ⟨written, name, hover, h, hf⟩
    · exact ⟨written, hover, h⟩

theorem isPlaced_ofAction {span : Span} (hover : span.IsOver template written)
    (h : Encloses written text) : (ofAction text span).IsPlaced template := by
  rcases ofAction_eq text span with hkept | ⟨name, hname, htext⟩
  · rw [hkept]
    exact ⟨written, hover, h⟩
  · rw [hname]
    rcases htext with rfl | rfl
    · exact isPlaced_ofFieldName hover h
    · exact isPlaced_ofFieldName hover h.of_dotted

theorem Token.IsPlaced.follow_leaves (h : t.IsPlaced template) : Follow template [t] t.leaves := by
  cases h with
  | @text chars start hne hover =>
    have hspan : (Span.between start (start + byteLength chars)) = ⟨start, byteLength chars⟩ := by
      simp [Span.between]
    rw [hspan] at hover
    exact follow_leaf rfl hover (by simp [Node.span, Token.span, Token.start, Token.stop, hspan])
      (.text hne (by rwa [hspan]))
  | @action written words start stop hwritten hlt hover =>
    have ht : (Token.action words start stop).IsPlaced template := .action hwritten hlt hover
    simp only [Token.leaves]
    split
    · exact follow_nil
    · split_ifs
      · exact follow_nil
      · exact follow_leaf rfl ⟨written, hover, hwritten.encloses⟩ rfl ht
    · exact follow_nil
    · exact follow_leaf (children_ofAction words _) (isPlaced_ofAction hover hwritten.encloses)
        (span_ofAction words _) ht

/-- A conditional is around everything that is written between the actions that open and close it. -/
theorem follow_conditional {opening closing : Token} {condition : List Char} {inner : List Token}
    {body : List Node} {otherwise : Option (List Node)}
    (hopening : opening.role = .opening condition) (hclosing : closing.role = .closing)
    (hplaced : ArePlaced template (opening :: (inner ++ [closing])))
    (h : Follow template inner (body ++ otherwise.getD [])) :
    Follow template (opening :: (inner ++ [closing]))
      [.conditional condition body otherwise (.between opening.start closing.stop)] := by
  obtain ⟨hfirst, hrest, hbehind⟩ := arePlaced_cons.mp hplaced
  obtain ⟨hinner, hlast, hahead⟩ := arePlaced_append.mp hrest
  have hlast : closing.IsPlaced template := hlast.placed closing (List.mem_singleton_self closing)
  have hstart := hfirst.start_lt_stop
  have hstop := hlast.start_lt_stop
  have hgap : opening.stop ≤ closing.start := hbehind closing (by simp)
  have hspan : (Span.between opening.start closing.stop).stop = closing.stop :=
    Span.stop_between (by omega)
  have hchildren : ∀ n ∈ body ++ otherwise.getD [],
      opening.start < n.span.offset ∧ n.span.stop < closing.stop := by
    intro n hn
    obtain ⟨t, ht, u, hu, hoffset, hend⟩ := h.within n hn
    have hbefore := hbehind t (List.mem_append_left _ ht)
    have hafter := hahead u hu closing (List.mem_singleton_self closing)
    omega
  have hwhole : ∃ opened mid closed first last,
      (Span.between opening.start closing.stop).IsOver template (opened ++ mid ++ closed) ∧
      IsAction opened first ∧ Role.ofAction first = .opening condition ∧
      IsAction closed last ∧ Role.ofAction last = .closing := by
    cases hfirst with
    | text => contradiction
    | @action opened first start stop hopened hlt hover =>
      cases hlast with
      | text => contradiction
      | @action closed last start' stop' hclosed hlt' hover' =>
        obtain ⟨mid, hmid⟩ := hover.hull hover' (by rwa [Span.stop_between hlt.le])
        rw [Span.stop_between hlt'.le] at hmid
        exact ⟨opened, mid, closed, first, last, hmid, hopened, hopening, hclosed, hclosing⟩
  refine ⟨?_, List.pairwise_singleton _ _, ?_⟩
  · intro n hn
    rcases hn.of_singleton with rfl | hn
    · refine ⟨hwhole, fun n hn => ?_, h.ordered⟩
      rw [hspan]
      exact hchildren n hn
    · exact h.placed n hn
  · intro n hn
    rw [List.mem_singleton.mp hn]
    exact ⟨opening, by simp, closing, by simp, rfl, hspan⟩

theorem IsWritten.follow (h : IsWritten tokens nodes) (hplaced : ArePlaced template tokens) :
    Follow template tokens nodes := by
  induction h with
  | nil => exact follow_nil
  | @content t later nodes ht _ ih =>
    obtain ⟨hfirst, hlater, hcross⟩ := arePlaced_cons.mp hplaced
    exact hfirst.follow_leaves.append (ih hlater) (by simpa using hcross)
  | @conditional opening closing condition body later bodyNodes nodes hopening hne _ hclosing _
      ihbody ih =>
    have hsplit : opening :: (body ++ closing :: later) =
        opening :: (body ++ [closing]) ++ later := by simp
    rw [hsplit] at hplaced ⊢
    obtain ⟨hblock, hlater, hcross⟩ := arePlaced_append.mp hplaced
    obtain ⟨-, hrest, -⟩ := arePlaced_cons.mp hblock
    obtain ⟨hbody, -, -⟩ := arePlaced_append.mp hrest
    have hinner : Follow template body (bodyNodes ++ (none : Option (List Node)).getD []) := by
      simpa using ihbody hbody
    exact (follow_conditional hopening hclosing hblock hinner).append (ih hlater) hcross
  | @divided opening dividing closing condition body other later bodyNodes otherNodes nodes hopening
      hne _ hdividing _ hclosing _ ihbody ihother ih =>
    have hsplit : opening :: (body ++ dividing :: (other ++ closing :: later)) =
        opening :: ((body ++ ([dividing] ++ other)) ++ [closing]) ++ later := by simp
    rw [hsplit] at hplaced ⊢
    obtain ⟨hblock, hlater, hcross⟩ := arePlaced_append.mp hplaced
    obtain ⟨-, hrest, -⟩ := arePlaced_cons.mp hblock
    obtain ⟨hinside, -, -⟩ := arePlaced_append.mp hrest
    obtain ⟨hbody, hbranch, hbehind⟩ := arePlaced_append.mp hinside
    obtain ⟨hmiddle, hother, hahead⟩ := arePlaced_append.mp hbranch
    have hleaves := (hmiddle.placed dividing (by simp)).follow_leaves
    have hinner : Follow template (body ++ ([dividing] ++ other))
        (bodyNodes ++ (some (dividing.leaves ++ otherNodes)).getD []) :=
      (ihbody hbody).append (hleaves.append (ihother hother) hahead) hbehind
    exact (follow_conditional hopening hclosing hblock hinner).append (ih hlater) hcross

end Nodes

section Refusals

/-- An action that nothing closes is reported from its braces on. -/
theorem cut_error {start offset : Nat} (h : Segment.cut start s = .error offset) :
    ∃ before inside, s = before ++ '\x7b' :: '\x7b' :: inside ∧
      offset = start + byteLength before := by
  fun_induction Segment.cut start s with
  | case1 => contradiction
  | case2 start s before inside hopen opening hclose =>
    exact ⟨before, inside, eq_of_splitAtPair? hopen, (Except.error.inj h).symm⟩
  | case3 start s before inside hopen opening body rest hclose action offset' herror ih =>
    obtain ⟨first, later, hrest, hoffset⟩ := ih (herror.trans h)
    have hs : s = before ++ (braced body ++ rest) := by
      rw [eq_of_splitAtPair? hopen, eq_of_splitAtPair? hclose, braced_append]
    refine ⟨before ++ braced body ++ first, later, ?_, ?_⟩
    · rw [hs, hrest]
      simp
    · simp only [byteLength_append, byteLength_braced]
      simp only [action, opening, Action.ofBody] at hoffset
      omega
  | case4 => contradiction

theorem mem_of_mem_enclosing {b : Branch} (h : b ∈ enclosing tokens) :
    ∃ t ∈ tokens, b.start = t.start := by
  induction tokens with
  | nil => simp [enclosing] at h
  | cons t later ih =>
    have hlater : b ∈ enclosing later → ∃ u ∈ t :: later, b.start = u.start := by
      intro hb
      obtain ⟨u, hu, hstart⟩ := ih hb
      exact ⟨u, List.mem_cons_of_mem t hu, hstart⟩
    rw [enclosing] at h
    split_ifs at h
    · rcases List.mem_cons.mp h with rfl | h
      · exact ⟨t, by simp, rfl⟩
      · exact hlater h
    · exact hlater h

theorem IsFlaw.exists_isOver {reason : Malformation} {span : Span}
    (h : IsFlaw (byteLength template) tokens reason span) (hplaced : ArePlaced template tokens) :
    ∃ under, span.IsOver template under := by
  cases h with
  | violation hsplit hbefore ht => exact (hplaced.placed _ (by simp [hsplit])).exists_isOver
  | unclosed horderly hb =>
    obtain ⟨t, ht, hstart⟩ := mem_of_mem_enclosing (List.mem_of_getLast? hb)
    obtain ⟨under, hover⟩ := (hplaced.placed t ht).exists_isOver
    obtain ⟨rest, hend⟩ := hover.toEnd
    rw [hstart]
    exact ⟨under ++ rest, hend⟩

theorem Node.IsPlaced.exists_isOver (h : n.IsPlaced template) :
    ∃ under, n.span.IsOver template under := by
  cases n with
  | literal text span => exact ⟨text, h⟩
  | field f span =>
    obtain ⟨written, name, hover, -⟩ := h
    exact ⟨written, hover⟩
  | arm span =>
    obtain ⟨written, hover, -⟩ := h
    exact ⟨written, hover⟩
  | unknown name span =>
    obtain ⟨written, hover, -⟩ := h
    exact ⟨written, hover⟩
  | conditional condition body otherwise span =>
    obtain ⟨⟨opening, mid, closing, -, -, hover, -⟩, -⟩ := h
    exact ⟨opening ++ mid ++ closing, hover⟩
  | unsupported action span =>
    obtain ⟨written, hover, -⟩ := h
    exact ⟨written, hover⟩

/-- What is wrong with a node is under its span. -/
theorem Node.IsPlaced.reported {fault : Fault} (h : n.IsPlaced template) (hn : n.HasFault fault) :
    ∃ under, n.span.IsOver template under ∧ fault.reported <:+: under := by
  cases hn with
  | @unsafeChar before after c span hb hc => exact ⟨_, h, before, after, by simp [Fault.reported]⟩
  | unknownField =>
    obtain ⟨written, hover, hencloses⟩ := h
    exact ⟨written, hover, hencloses.infix⟩
  | unsupportedAction =>
    obtain ⟨written, hover, hencloses⟩ := h
    exact ⟨written, hover, hencloses.infix⟩

theorem mem_nodes_of_foldArmSuffixes {t : NameTemplate} {before after : List Node}
    (h : t.foldArmSuffixes.nodes = before ++ n :: after) : n ∈ t.nodes := by
  have hkept : n ∈ t.foldArmSuffixes.nodes := by simp [h]
  exact mem_of_mem_dropArmSuffixes hkept

end Refusals

section Results
variable {template : String}

theorem arePlaced_ofSegments {segments : List Segment}
    (h : Segment.cut 0 template.toList = .ok segments) :
    ArePlaced template.toList (Token.ofSegments segments) := by
  obtain ⟨first, clauses, hcut, rfl⟩ := cut_eq_ok_iff.mp h
  rw [ofSegments_segmentsFrom]
  exact (hcut.arePlaced isReached [] false).1

theorem follow_of_parse {t : NameTemplate} (h : parse template = .ok t) :
    ∃ tokens, Follow template.toList tokens t.nodes := by
  obtain ⟨first, clauses, nodes, hcut, hnodes, rfl⟩ := parse_eq_ok_iff.mp h
  have hplaced := arePlaced_ofSegments (cut_of_isCut hcut 0)
  exact ⟨_, (ofTokens_eq_ok_iff.mp hnodes).follow hplaced⟩

theorem Refuses.exists_isOver {r : Refusal} (h : Refuses template r) :
    ∃ under, r.span.IsOver template.toList under ∧ r.fault.reported <:+: under := by
  cases h with
  | @malformed reason span h =>
    suffices hover : ∃ under, span.IsOver template.toList under by
      obtain ⟨under, hover⟩ := hover
      exact ⟨under, hover, List.nil_infix⟩
    cases hcut : Segment.cut 0 template.toList with
    | error offset =>
      obtain ⟨before, inside, htemplate, hoffset⟩ := cut_error hcut
      have hover := Span.isOver_between before ('\x7b' :: '\x7b' :: inside) []
      obtain ⟨rfl, rfl⟩ : reason = .unclosedAction ∧
          span = .between offset (byteLength template.toList) := by
        rw [parse_of_cut_error hcut] at h
        simpa using h.symm
      rw [htemplate, hoffset]
      exact ⟨'\x7b' :: '\x7b' :: inside, by simpa using hover⟩
    | ok segments =>
      obtain ⟨reason, hflaw, -⟩ := isFlaw_of_parse hcut h
      exact hflaw.exists_isOver (arePlaced_ofSegments hcut)
  | @conditional t before after n ht hs hb hn =>
    obtain ⟨tokens, hfollow⟩ := follow_of_parse ht
    have hmem : n ∈ t.nodes := mem_nodes_of_foldArmSuffixes hs
    obtain ⟨under, hover⟩ := (hfollow.placed n (.root hmem)).exists_isOver
    exact ⟨under, hover, List.nil_infix⟩
  | @fault t before after n fault ht hs hnone hb hn =>
    obtain ⟨tokens, hfollow⟩ := follow_of_parse ht
    have hmem : n ∈ t.nodes := mem_nodes_of_foldArmSuffixes hs
    exact (hfollow.placed n (.root hmem)).reported hn

/-- Every node of a tree, at any depth, is what the template has under the span of the node, and nodes
side by side are there one after the other. A refusal marks a piece of the template that holds the name,
the action or the character which the refusal is about. -/
theorem spans_exact (target template : String) :
    (∀ t, parse template = .ok t →
      (∀ n, Node.Occurs t.nodes n → n.IsPlaced template.toList) ∧
        t.nodes.Pairwise Node.IsBefore) ∧
    ∀ r, assign target template = .error r → r.template = template ∧
      ∃ under, r.span.IsOver template.toList under ∧ r.fault.reported <:+: under := by
  refine ⟨fun t ht => ?_, fun r hr => ?_⟩
  · obtain ⟨tokens, hfollow⟩ := follow_of_parse ht
    exact ⟨hfollow.placed, hfollow.ordered⟩
  · have hrefuses := assign_eq_error_iff.mp hr
    refine ⟨?_, hrefuses.exists_isOver⟩
    cases hrefuses <;> rfl

/-- Letters of two bytes, before a conditional and within it. -/
def accentedTemplate : String := "é\x7b\x7b if .Arm \x7d\x7dü\x7b\x7b end \x7d\x7d"

theorem spans_exact_accented :
    (∃ t n, parse accentedTemplate = .ok t ∧ Node.Occurs t.nodes n ∧ n.span = ⟨15, 2⟩ ∧
      n.IsPlaced accentedTemplate.toList) ∧
    ∃ under, assign "NAME=" accentedTemplate = .error ⟨accentedTemplate, .conditional, ⟨2, 24⟩⟩ ∧
      (⟨2, 24⟩ : Span).IsOver accentedTemplate.toList under := by
  obtain ⟨hplaced, hrefused⟩ := spans_exact "NAME=" accentedTemplate
  constructor
  · have hparse : (parse accentedTemplate).toOption.isSome = true := by decide +kernel
    obtain ⟨t, ht⟩ := Option.isSome_iff_exists.mp hparse
    have hinner : ∀ t ∈ (parse accentedTemplate).toOption,
        ∃ m ∈ t.nodes, ∃ n ∈ m.children, n.span = ⟨15, 2⟩ := by decide +kernel
    obtain ⟨m, hm, n, hn, hspan⟩ := hinner t ht
    have hoccurs : Node.Occurs t.nodes n := .child (.root hm) hn
    have htree := toOption_eq_some_iff.mp ht
    exact ⟨t, n, htree, hoccurs, hspan, (hplaced t htree).1 n hoccurs⟩
  · have hassign : assign "NAME=" accentedTemplate =
        .error ⟨accentedTemplate, .conditional, ⟨2, 24⟩⟩ := by decide +kernel
    obtain ⟨-, under, hover, -⟩ := hrefused _ hassign
    exact ⟨under, hassign, hover⟩

end Results

end ReleaseInstaller.NameTemplate
