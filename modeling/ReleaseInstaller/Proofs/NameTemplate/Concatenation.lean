import ReleaseInstaller.Proofs.NameTemplate.Spelling
import ReleaseInstaller.Proofs.Shell.Word

/-! Accepted templates one behind the other. Only text comes together where they meet: no braces, since
text with a brace in it is not accepted, and no blanks that a marker of the other one might reach, since
those that stay in an accepted template are not accepted either. -/
namespace ReleaseInstaller.NameTemplate
open Text Shell

/-- The first text of a template once there is more text behind the template. -/
def glueText (first more : List Char) : List Clause → List Char
  | [] => first ++ more
  | _ :: _ => first

/-- The clauses of a template with another one behind it, which begins with the text `more`. -/
def glueClauses (more : List Char) (later : List Clause) : List Clause → List Clause
  | [] => later
  | c :: rest => ⟨c.body, glueText c.after more rest⟩ :: glueClauses more later rest

/-- The text is a word with blanks around it, which are trimmed. -/
def IsPadded (trimsStart trimsEnd : Bool) (chars word : List Char) : Prop :=
  ∃ lead trail, chars = lead ++ word ++ trail ∧ (∀ c ∈ word, isWordChar c = true) ∧
    (∀ c ∈ lead, isBlank c = true) ∧ (∀ c ∈ trail, isBlank c = true) ∧
    (trimsStart = false → lead = []) ∧ (trimsEnd = false → trail = [])

/-- All the text in it means nothing to the shell. -/
def IsPlain (read : List Mark) : Prop := ∀ c, .char c ∈ read → isWordChar c = true

variable {trimsStart trimsEnd trimmed : Bool} {s u chars more word first : List Char}
  {clauses later : List Clause} {r : List Mark}

section Texts

/-- Trimming leaves the word. -/
theorem IsPadded.textMarks_eq (h : IsPadded trimsStart trimsEnd chars word) :
    textMarks trimsStart trimsEnd chars = word.map .char := by
  obtain ⟨lead, trail, rfl, hword, hlead, htrail, hstart, hend⟩ := h
  have hsolid : ∀ c ∈ word, isBlank c = false := fun c hc => isBlank_of_isWordChar (hword c hc)
  have hlast : trimEnd (word ++ trail) = word := by
    rw [trimEnd_append_of_blank htrail]
    exact trimEnd_eq_self fun c hc => hsolid c (List.mem_of_getLast? hc)
  have hkept : keptStart trimsStart (lead ++ word ++ trail) = word ++ trail ∨
      word = [] ∧ keptStart trimsStart (lead ++ word ++ trail) = [] := by
    cases trimsStart with
    | false => exact .inl (by simp [keptStart, hstart rfl])
    | true =>
      simp only [keptStart, if_true, List.append_assoc]
      rw [trimStart_append_of_blank hlead]
      cases word with
      | nil =>
        have hnil := trimStart_append_of_blank htrail []
        rw [List.append_nil] at hnil
        exact .inr ⟨rfl, hnil⟩
      | cons c word => exact .inl (trimStart_eq_self (by simpa using hsolid c (by simp)))
  unfold textMarks
  dsimp only
  rcases hkept with hkept | ⟨rfl, hkept⟩
  · rw [hkept]
    split_ifs with hreached
    · rw [hlast]
    · rw [hend (by simpa using hreached), List.append_nil]
  · rw [hkept]
    split_ifs <;> rfl

theorem exists_isPadded (h : IsPlain (textMarks trimsStart trimsEnd chars)) :
    ∃ word, IsPadded trimsStart trimsEnd chars word := by
  obtain ⟨lead, left, trail, hchars, hkept, hleft, hlead, htrail, hstart, hend⟩ :=
    exists_kept trimsStart trimsEnd chars
  simp only [IsPlain, textMarks, hkept, hleft] at h
  exact ⟨left, lead, trail, hchars, by simpa using h, hlead, htrail, hstart, hend⟩

theorem isPlain_append {t : List Mark} : IsPlain (r ++ t) ↔ IsPlain r ∧ IsPlain t := by
  simp only [IsPlain, List.mem_append, or_imp, forall_and]

/-- What holds of the marks of a template holds of its first text and of the rest. -/
theorem IsPlain.of_marks_cons {c : Clause} (h : IsPlain (marks trimmed first (c :: clauses))) :
    IsPlain (textMarks trimmed (isReached (c :: clauses)) first) ∧
      IsPlain (marks c.ClosesWithMarker c.after clauses) := by
  rw [marks, isPlain_append, isPlain_append] at h
  exact ⟨h.1.1, h.2⟩

theorem IsPadded.append (h : IsPadded trimsStart false chars word)
    (hmore : IsPadded false trimsEnd more s) :
    IsPadded trimsStart trimsEnd (chars ++ more) (word ++ s) := by
  obtain ⟨lead, trail, rfl, hword, hlead, -, hstart, hend⟩ := h
  obtain ⟨lead', trail', rfl, hs, -, htrail, hstart', hend'⟩ := hmore
  obtain rfl := hend rfl
  obtain rfl := hstart' rfl
  exact ⟨lead, trail', by simp, List.forall_mem_append.mpr ⟨hword, hs⟩, hlead, htrail, hstart, hend'⟩

theorem IsPadded.mono {reached : Bool} (h : IsPadded trimsStart trimsEnd chars word)
    (hle : trimsEnd = true → reached = true) : IsPadded trimsStart reached chars word := by
  obtain ⟨lead, trail, rfl, hword, hlead, htrail, hstart, hend⟩ := h
  refine ⟨lead, trail, rfl, hword, hlead, htrail, hstart, fun hreached => hend ?_⟩
  cases trimsEnd with
  | false => rfl
  | true => exact absurd (hle rfl) (by simp [hreached])

theorem IsPadded.noBrace (h : IsPadded trimsStart trimsEnd chars word) : '\x7b' ∉ chars := by
  obtain ⟨lead, trail, rfl, hword, hlead, htrail, -⟩ := h
  have hbrace : isWordChar '\x7b' = false := by decide
  have hsolid : isBlank '\x7b' = false := by decide
  intro hmem
  simp only [List.mem_append] at hmem
  rcases hmem with (hmem | hmem) | hmem
  · simp [hlead _ hmem] at hsolid
  · simp [hword _ hmem] at hbrace
  · simp [htrail _ hmem] at hsolid

end Texts

section Seam

theorem isBeforePair_of_not_mem {mark : Char} (h : mark ∉ s) : IsBeforePair mark s := by
  rintro ⟨before, after, heq⟩
  have hsecond : mark ∈ s := by
    rcases List.eq_nil_or_concat after with rfl | ⟨after, c, rfl⟩
    · have hmarks : (before ++ [mark]) ++ [mark] = s ++ [mark] := by simpa using heq
      rw [← (List.append_inj' hmarks rfl).1]
      simp
    · have hmarks : (before ++ [mark, mark] ++ after) ++ [c] = s ++ [mark] := by simpa using heq
      rw [← (List.append_inj' hmarks rfl).1]
      simp
  exact h hsecond

/-- The actions of both templates are the actions of the two together. -/
theorem IsCut.glue (h : IsCut s first clauses) (hmore : IsCut u more later)
    (hfirst : '\x7b' ∉ first) (hafter : ∀ c ∈ clauses, '\x7b' ∉ c.after) (hbrace : '\x7b' ∉ more) :
    IsCut (s ++ u) (glueText first more clauses) (glueClauses more later clauses) := by
  induction h with
  | @text s h =>
    have hjoined : '\x7b' ∉ s ++ more := by simp [hfirst, hbrace]
    cases hmore with
    | text hu =>
      refine .text fun hpair => hjoined ?_
      exact hpair.subset (by simp)
    | action hbefore hbody hrest =>
      have hcut := IsCut.action (isBeforePair_of_not_mem hjoined) hbody hrest
      simpa [glueText, glueClauses] using hcut
  | @action before body rest after clauses hbefore hbody _ ih =>
    obtain ⟨hfirstAfter, hrest⟩ := List.forall_mem_cons.mp hafter
    simpa [glueText, glueClauses] using IsCut.action hbefore hbody (ih hfirstAfter hrest)

theorem passing_zero (kept : List Char) : passing kept 0 = 0 := by
  simp [passing]

theorem passing_mono (kept : List Char) {m n : Nat} (h : m ≤ n) : passing kept m ≤ passing kept n := by
  unfold passing
  split_ifs <;> omega

/-- A marker that reaches a text reaches it with more behind the template. -/
theorem reaching_le (more : List Char) (later clauses : List Clause) :
    reaching clauses ≤ reaching (glueClauses more later clauses) := by
  induction clauses with
  | nil => exact Nat.zero_le _
  | cons c rest ih =>
    have hpassing : passing (keptStart c.ClosesWithMarker c.after) (reaching rest) ≤
        passing (keptStart c.ClosesWithMarker (glueText c.after more rest))
          (reaching (glueClauses more later rest)) := by
      cases rest with
      | nil =>
        rw [reaching, passing_zero]
        exact Nat.zero_le _
      | cons d rest => exact passing_mono _ ih
    rw [glueClauses, reaching, reaching]
    show (if c.isComment then passing (keptStart c.ClosesWithMarker c.after) (reaching rest) else 0) +
        (if c.OpensWithMarker then 1 else 0) ≤
      (if c.isComment then passing (keptStart c.ClosesWithMarker (glueText c.after more rest))
        (reaching (glueClauses more later rest)) else 0) + if c.OpensWithMarker then 1 else 0
    split_ifs <;> omega

/-- Together the templates say what they say by themselves. -/
theorem marks_glue (h : IsPlain (marks trimmed first clauses)) (hmore : IsPlain (marks false more later)) :
    marks trimmed (glueText first more clauses) (glueClauses more later clauses) =
      marks trimmed first clauses ++ marks false more later := by
  induction clauses generalizing trimmed first with
  | nil =>
    have hjoined (reached : Bool) (hreached : IsPlain (textMarks false reached more)) :
        textMarks trimmed reached (first ++ more) =
          textMarks trimmed false first ++ textMarks false reached more := by
      obtain ⟨word, hword⟩ := exists_isPadded h
      obtain ⟨rest, hrest⟩ := exists_isPadded hreached
      rw [(hword.append hrest).textMarks_eq, hword.textMarks_eq, hrest.textMarks_eq, List.map_append]
    cases later with
    | nil => exact hjoined false hmore
    | cons d later =>
      rw [glueText, glueClauses, marks, marks, marks, hjoined _ hmore.of_marks_cons.1]
      simp only [List.append_assoc]
  | cons c rest ih =>
    obtain ⟨hfirst, hrest⟩ := h.of_marks_cons
    obtain ⟨word, hword⟩ := exists_isPadded hfirst
    have hreached : isReached (c :: rest) = true →
        isReached (glueClauses more later (c :: rest)) = true := by
      have hle := reaching_le more later (c :: rest)
      simp only [isReached, decide_eq_true_eq]
      omega
    -- A marker that now gets as far as this text finds no blank at its end.
    have htext := (hword.mono hreached).textMarks_eq.trans hword.textMarks_eq.symm
    rw [marks, List.append_assoc, ← ih hrest, ← htext]
    rfl

end Seam

section Results
variable {pieces : List Piece}

theorem IsSuffix.isPlain (h : IsSuffix r) : IsPlain r := by
  cases h with
  | bare => simp [IsPlain]
  | lettered =>
    simp only [IsPlain, List.mem_cons, Mark.char.injEq, List.not_mem_nil, or_false, reduceCtorEq,
      false_or, forall_eq]
    decide

theorem Spells.isPlain {afterArch : Bool} (h : Spells afterArch r pieces) : IsPlain r := by
  induction h with
  | nil => simp [IsPlain]
  | char hc _ ih => simpa [IsPlain] using ⟨hc, ih⟩
  | field _ _ ih => simpa [IsPlain] using ih
  | suffix hs _ ih => exact isPlain_append.mpr ⟨hs.isPlain, ih⟩

theorem IsPlain.noBrace (h : IsPlain (marks trimmed first clauses)) :
    '\x7b' ∉ first ∧ ∀ c ∈ clauses, '\x7b' ∉ c.after := by
  induction clauses generalizing trimmed first with
  | nil =>
    obtain ⟨word, hword⟩ := exists_isPadded h
    exact ⟨hword.noBrace, by simp⟩
  | cons c rest ih =>
    obtain ⟨hfirst, hrest⟩ := h.of_marks_cons
    obtain ⟨word, hword⟩ := exists_isPadded hfirst
    exact ⟨hword.noBrace, List.forall_mem_cons.mpr (ih hrest)⟩

/-- Two templates one behind the other spell their names one behind the other. -/
theorem IsSpelled.append {template template' : String} {pieces' : List Piece}
    (h : IsSpelled template pieces) (h' : IsSpelled template' pieces') :
    IsSpelled (template ++ template') (pieces ++ pieces') := by
  obtain ⟨first, clauses, hcut, hspells⟩ := h
  obtain ⟨more, later, hcut', hspells'⟩ := h'
  obtain ⟨hfirst, hafter⟩ := hspells.isPlain.noBrace
  obtain ⟨hbrace, -⟩ := hspells'.isPlain.noBrace
  refine ⟨glueText first more clauses, glueClauses more later clauses, ?_, ?_⟩
  · rw [String.toList_append]
    exact hcut.glue hcut' hfirst hafter hbrace
  · rw [marks_glue hspells.isPlain hspells'.isPlain]
    exact hspells.append hspells'

theorem isSpelled_empty : IsSpelled "" [] :=
  ⟨[], [], .text (by simp), .nil⟩

/-- The empty template is an empty expression, and two templates that are accepted by themselves are
accepted one behind the other, with their expressions one behind the other. -/
theorem assign_append (target : String) :
    assign target "" = .ok ⟨target, ""⟩ ∧
    ∀ template template' a a', assign target template = .ok a → assign target template' = .ok a' →
      assign target (template ++ template') = .ok ⟨target, a.expression ++ a'.expression⟩ := by
  refine ⟨isSpelled_empty.assign_eq target, fun template template' a a' h h' => ?_⟩
  obtain ⟨pieces, hspelled, rfl⟩ := assign_eq_ok_iff_isSpelled.mp h
  obtain ⟨pieces', hspelled', rfl⟩ := assign_eq_ok_iff_isSpelled.mp h'
  rw [(hspelled.append hspelled').assign_eq, List.flatMap_append, String.ofList_append]

/-- White space and a marker on both sides of the seam. -/
def leftHalf : String := "a \x7b\x7b- .Arch -\x7d\x7d "

def rightHalf : String := " \x7b\x7b- /* seam */ -\x7d\x7d b"

theorem assign_append_halves :
    assign "NAME=" (leftHalf ++ rightHalf) = .ok ⟨"NAME=", "a$\x7bARCH\x7d" ++ "b"⟩ := by
  have hleft : assign "NAME=" leftHalf = .ok ⟨"NAME=", "a$\x7bARCH\x7d"⟩ := by decide +kernel
  have hright : assign "NAME=" rightHalf = .ok ⟨"NAME=", "b"⟩ := by decide +kernel
  exact (assign_append "NAME=").2 _ _ _ _ hleft hright

end Results

end ReleaseInstaller.NameTemplate
