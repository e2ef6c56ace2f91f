import ReleaseInstaller.Proofs.NameTemplate.Spelling
import ReleaseInstaller.Proofs.Shell.Word

/-! Which templates become the same expression: those that spell the same name. -/
namespace ReleaseInstaller.NameTemplate
open Text Shell

mutual

/-- The node without its place in the template. -/
def Node.bare : Node → Node
  | .literal text _ => .literal text default
  | .field f _ => .field f default
  | .arm _ => .arm default
  | .unknown name _ => .unknown name default
  | .conditional condition body otherwise _ =>
    .conditional condition (bareAll body) (bareOtherwise otherwise) default
  | .unsupported action _ => .unsupported action default

def Node.bareAll : List Node → List Node
  | [] => []
  | n :: rest => n.bare :: bareAll rest

def Node.bareOtherwise : Option (List Node) → Option (List Node)
  | none => none
  | some nodes => some (bareAll nodes)

end

/-- Puts a text before nodes, into the first of them if that is text as well. -/
def consLiteral (text : List Char) (span : Span) : List Node → List Node
  | .literal more _ :: rest => .literal (text ++ more) span :: rest
  | nodes => .literal text span :: nodes

/-- Texts side by side are one. -/
def joinLiterals : List Node → List Node
  | [] => []
  | .literal text span :: rest => consLiteral text span (joinLiterals rest)
  | n :: rest => n :: joinLiterals rest

/-- The nodes of a name, with every text as long as it can be. -/
def ofPieces : List Piece → List Node
  | [] => []
  | .char c :: rest => consLiteral [c] default (ofPieces rest)
  | .field f :: rest => .field f default :: ofPieces rest

variable {pieces pieces' : List Piece} {nodes : List Node} {tokens : List Token} {text : List Char}
  {span : Span}

section Names

theorem consLiteral_consLiteral (text more : List Char) (span place : Span) (nodes : List Node) :
    consLiteral text span (consLiteral more place nodes) = consLiteral (text ++ more) span nodes := by
  cases nodes with
  | nil => rfl
  | cons n rest => cases n <;> simp [consLiteral]

theorem pieces_consLiteral (text : List Char) (span : Span) (nodes : List Node) :
    (consLiteral text span nodes).flatMap Node.pieces = text.map .char ++ nodes.flatMap Node.pieces := by
  unfold consLiteral
  split <;> simp [Node.pieces]

theorem ofPieces_map_char (hne : text ≠ []) (pieces : List Piece) :
    ofPieces (text.map .char ++ pieces) = consLiteral text default (ofPieces pieces) := by
  induction text with
  | nil => contradiction
  | cons c text ih =>
    cases text with
    | nil => rfl
    | cons d text =>
      have hrest := ih (List.cons_ne_nil d text)
      rw [List.map_cons, List.cons_append, ofPieces, hrest, consLiteral_consLiteral,
        List.singleton_append]

/-- The nodes tell the name. -/
theorem pieces_ofPieces (pieces : List Piece) : (ofPieces pieces).flatMap Node.pieces = pieces := by
  induction pieces with
  | nil => rfl
  | cons p pieces ih =>
    cases p with
    | char c => rw [ofPieces, pieces_consLiteral, ih, List.map_singleton, List.singleton_append]
    | field f => rw [ofPieces, List.flatMap_cons, ih, Node.pieces, List.singleton_append]

theorem joinLiterals_bareAll (h : ∀ n ∈ nodes, n.HasSpelling)
    (hne : ∀ text span, .literal text span ∈ nodes → text ≠ []) :
    joinLiterals (Node.bareAll nodes) = ofPieces (nodes.flatMap Node.pieces) := by
  induction nodes with
  | nil => rfl
  | cons n nodes ih =>
    obtain ⟨hn, hrest⟩ := List.forall_mem_cons.mp h
    have ih := ih hrest fun text span hmem => hne text span (List.mem_cons_of_mem n hmem)
    cases n with
    | literal text span =>
      have htext := hne text span List.mem_cons_self
      rw [List.flatMap_cons, Node.pieces, ofPieces_map_char htext, ← ih]
      rfl
    | field f span =>
      rw [List.flatMap_cons, Node.pieces, List.singleton_append, ofPieces, ← ih]
      rfl
    | arm | unknown | conditional | unsupported => exact hn.elim

theorem IsWritten.literal_ne_nil (h : IsWritten tokens nodes) (hne : ∀ t ∈ tokens, t.marks ≠ []) :
    ∀ text span, .literal text span ∈ nodes → text ≠ [] := by
  induction h with
  | nil => simp
  | @content t later nodes ht _ ih =>
    obtain ⟨hfirst, hlater⟩ := List.forall_mem_cons.mp hne
    obtain ⟨n, hleaves, hleaf⟩ := exists_isLeaf ht
    intro text span hmem
    rw [hleaves, List.singleton_append] at hmem
    rcases List.mem_cons.mp hmem with rfl | hmem
    · obtain ⟨start, rfl⟩ := hleaf.exists_text
      simpa [Token.marks] using hfirst
    · exact ih hlater text span hmem
  | conditional _ _ _ _ _ _ ih =>
    intro text span hmem
    exact ih (fun t ht => hne t (by simp [ht])) text span (by simpa using hmem)
  | divided _ _ _ _ _ _ _ _ _ ih =>
    intro text span hmem
    exact ih (fun t ht => hne t (by simp [ht])) text span (by simpa using hmem)

end Names

section Expressions

/-- Where a reference ends is told by the reference. -/
theorem Field.reference_append_inj {f g : Field} {s u : List Char}
    (h : f.reference ++ s = g.reference ++ u) : f = g ∧ s = u := by
  cases f <;> cases g <;> simp_all [Field.reference, Field.variableName]

theorem expression_ne_nil (p : Piece) : p.expression ≠ [] := by
  cases p <;> simp [Piece.expression, Field.reference]

theorem char_append_ne_reference {c : Char} (hc : isWordChar c = true) (f : Field) (s u : List Char) :
    c :: s ≠ f.reference ++ u := by
  intro h
  have hdollar : c = '$' := (List.cons.inj h).1
  exact ne_of_isWordChar hc (by decide) hdollar

/-- No text looks like a reference, so an expression can be read in one way. -/
theorem pieces_eq_of_expression (hp : ∀ c, .char c ∈ pieces → isWordChar c = true)
    (hp' : ∀ c, .char c ∈ pieces' → isWordChar c = true)
    (h : pieces.flatMap Piece.expression = pieces'.flatMap Piece.expression) : pieces = pieces' := by
  induction pieces generalizing pieces' with
  | nil =>
    cases pieces' with
    | nil => rfl
    | cons q rest => exact absurd (List.append_eq_nil_iff.mp h.symm).1 (expression_ne_nil q)
  | cons p pieces ih =>
    cases pieces' with
    | nil => exact absurd (List.append_eq_nil_iff.mp h).1 (expression_ne_nil p)
    | cons q rest =>
      have ih (h : pieces.flatMap Piece.expression = rest.flatMap Piece.expression) : pieces = rest :=
        ih (fun c hc => hp c (List.mem_cons_of_mem p hc))
          (fun c hc => hp' c (List.mem_cons_of_mem q hc)) h
      rw [List.flatMap_cons, List.flatMap_cons] at h
      cases p with
      | char c =>
        cases q with
        | char d =>
          obtain ⟨rfl, hrest⟩ := List.cons.inj h
          rw [ih hrest]
        | field f => exact absurd h (char_append_ne_reference (hp c List.mem_cons_self) f _ _)
      | field f =>
        cases q with
        | char d => exact absurd h.symm (char_append_ne_reference (hp' d List.mem_cons_self) f _ _)
        | field g =>
          obtain ⟨rfl, hrest⟩ := Field.reference_append_inj h
          rw [ih hrest]

end Expressions

section Results
variable {target target' template template' : String} {a a' : Assignment} {t t' : NameTemplate}

theorem IsSpelled.isWordChar_of_mem (h : IsSpelled template pieces) :
    ∀ c, .char c ∈ pieces → isWordChar c = true := by
  obtain ⟨first, clauses, -, hspells⟩ := h
  exact hspells.isWordChar_of_mem

/-- The tree of an accepted template, without spans and with texts joined, is that of its name. -/
theorem exists_pieces_of_assign (h : assign target template = .ok a) (ht : parse template = .ok t) :
    ∃ pieces, IsSpelled template pieces ∧
      a.expression = String.ofList (pieces.flatMap Piece.expression) ∧
      joinLiterals (Node.bareAll t.foldArmSuffixes.nodes) = ofPieces pieces := by
  obtain ⟨u, hu, hspelling, rfl⟩ := assign_eq_ok_iff.mp h
  obtain rfl : t = u := Except.ok.inj (ht.symm.trans hu)
  obtain ⟨first, clauses, nodes, hcut, hnodes, rfl⟩ := parse_eq_ok_iff.mp ht
  rw [ofSegments_segmentsFrom] at hnodes
  have hwritten := ofTokens_eq_ok_iff.mp hnodes
  have hspells := hwritten.spells false hspelling
  rw [marks_tokensBy] at hspells
  have hne := hwritten.literal_ne_nil fun u => marks_ne_nil
  have hkept : ∀ text span, .literal text span ∈ dropArmSuffixes false nodes → text ≠ [] :=
    fun text span hmem => hne text span (mem_of_mem_dropArmSuffixes hmem)
  refine ⟨_, ⟨first, clauses, hcut, hspells⟩, ?_, joinLiterals_bareAll hspelling hkept⟩
  rw [flatMap_expression_pieces]
  rfl

/-- Two accepted templates become the same expression exactly if their trees are the same but for the
spans and for how texts are divided. Then they spell the same name, and differ in nothing but how they
refer to fields, in comments, in white space that is trimmed, and in ARM suffixes behind an
architecture. -/
theorem expression_eq_iff (h : assign target template = .ok a) (h' : assign target' template' = .ok a')
    (ht : parse template = .ok t) (ht' : parse template' = .ok t') :
    (a.expression = a'.expression ↔
      joinLiterals (Node.bareAll t.foldArmSuffixes.nodes) =
        joinLiterals (Node.bareAll t'.foldArmSuffixes.nodes)) ∧
    (a.expression = a'.expression ↔
      ∃ pieces, IsSpelled template pieces ∧ IsSpelled template' pieces) := by
  obtain ⟨pieces, hspelled, hexpression, hnodes⟩ := exists_pieces_of_assign h ht
  obtain ⟨pieces', hspelled', hexpression', hnodes'⟩ := exists_pieces_of_assign h' ht'
  have hsame : a.expression = a'.expression ↔ pieces = pieces' := by
    rw [hexpression, hexpression', String.ofList_inj]
    refine ⟨pieces_eq_of_expression hspelled.isWordChar_of_mem hspelled'.isWordChar_of_mem, ?_⟩
    rintro rfl
    rfl
  constructor
  · rw [hsame, hnodes, hnodes']
    refine ⟨congrArg ofPieces, fun heq => ?_⟩
    rw [← pieces_ofPieces pieces, heq, pieces_ofPieces]
  · refine ⟨fun heq => ⟨pieces, hspelled, (hsame.mp heq) ▸ hspelled'⟩, ?_⟩
    rintro ⟨name, hname, hname'⟩
    rw [Except.ok.inj (h.symm.trans (hname.assign_eq target)),
      Except.ok.inj (h'.symm.trans (hname'.assign_eq target'))]

/-- A name with a field in it, and the same with a comment, markers and another spelling. -/
def plainTemplate : String := "a\x7b\x7b .Os \x7d\x7db"

def markedSpelling : String := "a \x7b\x7b- /* of which? */ -\x7d\x7d \x7b\x7bOS -\x7d\x7d\nb"

theorem expression_eq_iff_marked : ∃ t t', parse plainTemplate = .ok t ∧
    parse markedSpelling = .ok t' ∧
    joinLiterals (Node.bareAll t.foldArmSuffixes.nodes) =
      joinLiterals (Node.bareAll t'.foldArmSuffixes.nodes) ∧
    ∃ pieces, IsSpelled plainTemplate pieces ∧ IsSpelled markedSpelling pieces := by
  have h : assign "NAME=" plainTemplate = .ok ⟨"NAME=", "a$\x7bOS\x7db"⟩ := by decide +kernel
  have h' : assign "NAME=" markedSpelling = .ok ⟨"NAME=", "a$\x7bOS\x7db"⟩ := by decide +kernel
  obtain ⟨t, ht, -⟩ := assign_eq_ok_iff.mp h
  obtain ⟨t', ht', -⟩ := assign_eq_ok_iff.mp h'
  obtain ⟨hnodes, hspelled⟩ := expression_eq_iff h h' ht ht'
  exact ⟨t, t', ht, ht', hnodes.mp rfl, hspelled.mp rfl⟩

end Results

end ReleaseInstaller.NameTemplate
