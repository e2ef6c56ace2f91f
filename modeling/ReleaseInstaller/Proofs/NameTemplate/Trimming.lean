import Mathlib.Algebra.Ring.Nat
import Mathlib.Logic.Function.Iterate
import ReleaseInstaller.NameTemplate.Basic
import ReleaseInstaller.Proofs.NameTemplate.Cutting
import ReleaseInstaller.Proofs.Text.Trim

/-! Which text a trim marker cuts into. A marker at the start of an action trims the latest text that is
left, so one that stands behind a comment may reach a text from before the comment. -/
namespace ReleaseInstaller.NameTemplate
open Text

variable {trimmed : Bool} {first : List Char} {clauses : List Clause}

/-- A text without the white space at its start, if that is to go. -/
def keptStart (trimmed : Bool) (chars : List Char) : List Char :=
  if trimmed then trimStart chars else chars

/-- How many of the markers behind a text get past it: the first one takes a blank text away. -/
def passing (kept : List Char) (markers : Nat) : Nat :=
  if kept = [] then markers else if trimEnd kept = [] then markers - 1 else 0

/-- How many of the markers in the clauses reach the text before them. -/
def reaching : List Clause → Nat
  | [] => 0
  | c :: rest =>
    (if c.isComment then passing (keptStart c.ClosesWithMarker c.after) (reaching rest) else 0) +
      if c.OpensWithMarker then 1 else 0

/-- What is left of a text: white space at its start or at its end may be cut off. -/
def textTokens (start : Nat) (trimsStart trimsEnd : Bool) (chars : List Char) : List Token :=
  let kept := keptStart trimsStart chars
  let left := if trimsEnd then trimEnd kept else kept
  if left = [] then [] else [.text left (start + (byteLength chars - byteLength kept))]

/-- What is left of an action that opens at `start`. -/
def Clause.tokens (c : Clause) (start : Nat) : List Token :=
  if c.isComment then [] else [.action c.text start (Action.ofBody c.body start).stop]

/-- What is left of a template whose texts lose the white space at their end before the clauses that
`reached` tells. -/
def tokensBy (reached : List Clause → Bool) (start : Nat) (trimmed : Bool) (first : List Char) :
    List Clause → List Token
  | [] => textTokens start trimmed (reached []) first
  | c :: rest =>
    let opening := start + byteLength first
    textTokens start trimmed (reached (c :: rest)) first ++ c.tokens opening ++
      tokensBy reached (Action.ofBody c.body opening).stop c.ClosesWithMarker c.after rest

/-- Some marker reaches the text before the clauses. -/
def isReached (clauses : List Clause) : Bool := 0 < reaching clauses

/-- The action right behind the text begins with a marker. -/
def isNextToMarker : List Clause → Bool
  | [] => false
  | c :: _ => c.OpensWithMarker

/-- What is left of a text is in the text, with the blanks around it that are cut off. -/
theorem exists_kept (trimsStart trimsEnd : Bool) (chars : List Char) : ∃ lead left trail,
    chars = lead ++ left ++ trail ∧ keptStart trimsStart chars = left ++ trail ∧
    (if trimsEnd then trimEnd (left ++ trail) else left ++ trail) = left ∧
    (∀ c ∈ lead, isBlank c = true) ∧ (∀ c ∈ trail, isBlank c = true) ∧
    (trimsStart = false → lead = []) ∧ (trimsEnd = false → trail = []) := by
  obtain ⟨lead, hlead, hblank, hstart⟩ : ∃ lead, chars = lead ++ keptStart trimsStart chars ∧
      (∀ c ∈ lead, isBlank c = true) ∧ (trimsStart = false → lead = []) := by
    cases trimsStart with
    | true =>
      obtain ⟨lead, hlead, hblank⟩ := exists_trimStart chars
      exact ⟨lead, hlead, hblank, by simp⟩
    | false => exact ⟨[], rfl, by simp, by simp⟩
  cases trimsEnd with
  | true =>
    obtain ⟨trail, htrail, hend⟩ := exists_trimEnd (keptStart trimsStart chars)
    refine ⟨lead, trimEnd (keptStart trimsStart chars), trail, ?_, htrail, ?_, hblank, hend, hstart,
      by simp⟩
    · rw [List.append_assoc, ← htrail, ← hlead]
    · rw [if_pos rfl, ← htrail]
  | false =>
    refine ⟨lead, keptStart trimsStart chars, [], ?_, by simp, by simp, hblank, by simp, hstart,
      by simp⟩
    rw [List.append_nil, ← hlead]

section Latest
variable (tokens : List Token)
open Token

theorem trimLatest_action (text : List Char) (start stop : Nat) (n : Nat) :
    trimLatest^[n] (.action text start stop :: tokens) = .action text start stop :: tokens :=
  Function.iterate_fixed rfl n

theorem trimLatest_trimEnd {chars : List Char} (hne : trimEnd chars ≠ []) (start n : Nat) :
    trimLatest^[n] (.text (trimEnd chars) start :: tokens) =
      .text (trimEnd chars) start :: tokens := by
  apply Function.iterate_fixed
  simp [trimLatest, trimEnd_trimEnd, hne]

theorem ofText_eq (chars : List Char) (start : Nat) (trimmed : Bool) :
    ofText chars start trimmed = textTokens start trimmed false chars := by
  simp [ofText, textTokens, keptStart]

/-- The markers that come behind a text: the first one trims it, and those that pass trim what was there
before it. -/
theorem trimLatest_ofText (chars : List Char) (start : Nat) (trimmed : Bool) (markers : Nat) :
    trimLatest^[markers] (ofText chars start trimmed ++ tokens) =
      textTokens start trimmed (0 < markers) chars ++
        trimLatest^[passing (keptStart trimmed chars) markers] tokens := by
  rw [ofText_eq]
  by_cases hkept : keptStart trimmed chars = []
  · have hend : trimEnd [] = [] := rfl
    simp [textTokens, passing, hkept, hend]
  · cases markers with
    | zero => simp [textTokens, passing, hkept]
    | succ markers =>
      rw [Function.iterate_succ_apply]
      by_cases hend : trimEnd (keptStart trimmed chars) = []
      · simp [textTokens, passing, hkept, hend, trimLatest]
      · have hfixed := trimLatest_trimEnd tokens hend
          (start + (byteLength chars - byteLength (keptStart trimmed chars))) markers
        simpa [textTokens, passing, hkept, hend, trimLatest] using hfixed

end Latest

section Reading
variable {tokens : List Token}

theorem reverse_textTokens (start : Nat) (trimsStart trimsEnd : Bool) (chars : List Char) :
    (textTokens start trimsStart trimsEnd chars).reverse =
      textTokens start trimsStart trimsEnd chars := by
  rw [textTokens, apply_ite List.reverse, List.reverse_nil, List.reverse_singleton]

theorem reverse_tokens (c : Clause) (start : Nat) : (c.tokens start).reverse = c.tokens start := by
  rw [Clause.tokens, apply_ite List.reverse, List.reverse_nil, List.reverse_singleton]

/-- Only a comment lets markers through to the tokens before it. -/
theorem trimLatest_tokens (c : Clause) (start n : Nat) :
    Token.trimLatest^[n] (c.tokens start ++ tokens) =
      c.tokens start ++ Token.trimLatest^[if c.isComment then n else 0] tokens := by
  unfold Clause.tokens
  split
  · rfl
  · exact trimLatest_action tokens _ _ _ n

theorem step_action (c : Clause) (start : Nat) (tokens : List Token) (trimmed : Bool) :
    Token.Reading.step ⟨tokens, trimmed⟩ (.action (Action.ofBody c.body start)) =
      ⟨c.tokens start ++ Token.trimLatest^[if c.OpensWithMarker then 1 else 0] tokens,
        c.ClosesWithMarker⟩ := by
  have hcomment : (Action.ofBody c.body start).isComment = c.isComment := rfl
  have hafter : (Action.ofBody c.body start).trimsAfter = decide c.ClosesWithMarker := by
    rw [Bool.eq_iff_iff, Clause.trimsAfter_ofBody, decide_eq_true_iff]
  have hlatest : (if (Action.ofBody c.body start).trimsBefore then Token.trimLatest tokens
      else tokens) = Token.trimLatest^[if c.OpensWithMarker then 1 else 0] tokens := by
    simp only [Clause.trimsBefore_ofBody]
    split <;> rfl
  rw [Token.Reading.step, hlatest, hafter, hcomment, Clause.tokens]
  split <;> rfl

/-- What the segments leave behind the tokens that are there already. -/
theorem tokens_foldl (start : Nat) (trimmed : Bool) (first : List Char) (clauses : List Clause)
    (tokens : List Token) :
    ((segmentsFrom start first clauses).foldl Token.Reading.step ⟨tokens, trimmed⟩).tokens =
      (tokensBy isReached start trimmed first clauses).reverse ++
        Token.trimLatest^[passing (keptStart trimmed first) (reaching clauses)] tokens := by
  induction clauses generalizing start trimmed first tokens with
  | nil =>
    have htext := trimLatest_ofText tokens first start trimmed 0
    rw [tokensBy, reverse_textTokens]
    exact htext
  | cons c rest ih =>
    have htext := trimLatest_ofText tokens first start trimmed (reaching (c :: rest))
    calc ((segmentsFrom start first (c :: rest)).foldl Token.Reading.step ⟨tokens, trimmed⟩).tokens
      _ = (tokensBy isReached (Action.ofBody c.body (start + byteLength first)).stop
            c.ClosesWithMarker c.after rest).reverse ++
          (c.tokens (start + byteLength first) ++
            Token.trimLatest^[reaching (c :: rest)]
              (Token.ofText first start trimmed ++ tokens)) := by
        rw [segmentsFrom, List.foldl_cons, List.foldl_cons, Token.Reading.step, step_action, ih,
          trimLatest_tokens, ← Function.iterate_add_apply, reaching]
      _ = (tokensBy isReached start trimmed first (c :: rest)).reverse ++
          Token.trimLatest^[passing (keptStart trimmed first) (reaching (c :: rest))] tokens := by
        rw [htext, tokensBy, List.reverse_append, List.reverse_append, reverse_textTokens,
          reverse_tokens]
        simp only [List.append_assoc]
        rfl

theorem ofSegments_segmentsFrom (start : Nat) (first : List Char) (clauses : List Clause) :
    Token.ofSegments (segmentsFrom start first clauses) =
      tokensBy isReached start false first clauses := by
  have hnil : ∀ n : Nat, Token.trimLatest^[n] [] = [] := Function.iterate_fixed rfl
  rw [Token.ofSegments, tokens_foldl, hnil, List.append_nil, List.reverse_reverse]

end Reading

/-- The number of characters in the texts. -/
def textLength (tokens : List Token) : Nat :=
  (tokens.map fun
    | .text chars _ => chars.length
    | .action .. => 0).sum

/-- No marker takes white space off a text that it does not stand next to. -/
def MarkersStay (trimmed : Bool) (first : List Char) : List Clause → Prop
  | [] => True
  | c :: rest =>
    (isReached (c :: rest) = true → c.OpensWithMarker ∨
      trimEnd (keptStart trimmed first) = keptStart trimmed first) ∧
    MarkersStay c.ClosesWithMarker c.after rest

instance decidableMarkersStay (trimmed : Bool) (first : List Char) :
    (clauses : List Clause) → Decidable (MarkersStay trimmed first clauses)
  | [] => inferInstanceAs (Decidable True)
  | c :: rest =>
    have := decidableMarkersStay c.ClosesWithMarker c.after rest
    inferInstanceAs (Decidable
      ((isReached (c :: rest) = true → c.OpensWithMarker ∨
          trimEnd (keptStart trimmed first) = keptStart trimmed first) ∧
        MarkersStay c.ClosesWithMarker c.after rest))

theorem textLength_append (tokens later : List Token) :
    textLength (tokens ++ later) = textLength tokens + textLength later := by
  simp [textLength]

theorem textLength_textTokens (start : Nat) (trimsStart trimsEnd : Bool) (chars : List Char) :
    textLength (textTokens start trimsStart trimsEnd chars) =
      (if trimsEnd then trimEnd (keptStart trimsStart chars)
        else keptStart trimsStart chars).length := by
  unfold textTokens
  dsimp only
  split_ifs <;> simp [textLength, *]

theorem isReached_of_opensWithMarker {c : Clause} (h : c.OpensWithMarker) (rest : List Clause) :
    isReached (c :: rest) = true := by
  simp [isReached, reaching, h]

/-- The texts as they are against the texts as the markers next to them have it: the former hold no
more than the latter, and as much only if no marker gets away. -/
theorem textLength_tokensBy (start : Nat) (trimmed : Bool) (first : List Char)
    (clauses : List Clause) :
    textLength (tokensBy isReached start trimmed first clauses) ≤
        textLength (tokensBy isNextToMarker start trimmed first clauses) ∧
      (textLength (tokensBy isReached start trimmed first clauses) =
          textLength (tokensBy isNextToMarker start trimmed first clauses) →
        MarkersStay trimmed first clauses) := by
  induction clauses generalizing start trimmed first with
  | nil => exact ⟨le_rfl, fun _ => trivial⟩
  | cons c rest ih =>
    obtain ⟨hle, hstay⟩ := ih (Action.ofBody c.body (start + byteLength first)).stop
      c.ClosesWithMarker c.after
    have hshort := length_trimEnd_le (keptStart trimmed first)
    simp only [tokensBy, textLength_append, textLength_textTokens]
    by_cases hreached : isReached (c :: rest) = true
    · by_cases hopens : c.OpensWithMarker
      · have hnext : isNextToMarker (c :: rest) = true := decide_eq_true hopens
        rw [hreached, hnext]
        exact ⟨by omega, fun h => ⟨fun _ => .inl hopens, hstay (by omega)⟩⟩
      · have hnext : isNextToMarker (c :: rest) = false := decide_eq_false hopens
        rw [hreached, hnext]
        simp only [if_true, Bool.false_eq_true, if_false]
        refine ⟨by omega, fun h => ⟨fun _ => .inr ?_, hstay (by omega)⟩⟩
        exact trimEnd_eq_self_of_length (by omega)
    · have hopens : ¬ c.OpensWithMarker := fun h => hreached (isReached_of_opensWithMarker h rest)
      have hnext : isNextToMarker (c :: rest) = false := decide_eq_false hopens
      rw [Bool.not_eq_true] at hreached
      rw [hreached, hnext]
      exact ⟨by omega, fun h => ⟨fun hr => absurd (hreached.symm.trans hr) (by decide),
        hstay (by omega)⟩⟩

theorem textTokens_congr {start : Nat} {trimsEnd trimsEnd' : Bool}
    (h : trimsEnd = trimsEnd' ∨ trimEnd (keptStart trimmed first) = keptStart trimmed first) :
    textTokens start trimmed trimsEnd first = textTokens start trimmed trimsEnd' first := by
  rcases h with rfl | h
  · rfl
  · simp only [textTokens, h, ite_self]

theorem tokensBy_of_markersStay (start : Nat) (h : MarkersStay trimmed first clauses) :
    tokensBy isReached start trimmed first clauses =
      tokensBy isNextToMarker start trimmed first clauses := by
  induction clauses generalizing start trimmed first with
  | nil => rfl
  | cons c rest ih =>
    obtain ⟨hfirst, hrest⟩ := h
    rw [tokensBy, tokensBy, ih _ hrest]
    congr 2
    apply textTokens_congr
    by_cases hopens : c.OpensWithMarker
    · left
      rw [isReached_of_opensWithMarker hopens]
      exact (decide_eq_true hopens).symm
    · cases hreached : isReached (c :: rest) with
      | true => exact .inr ((hfirst hreached).resolve_left hopens)
      | false => exact .inl (decide_eq_false hopens).symm

/-- A template that can be cut is cut at its first actions, one after the other. A text is left
without the white space at its start if the action before it ends with a marker, and without that at its
end if some marker reaches it; comments leave nothing. That these markers are the ones at the start of
the next action holds exactly if no marker gets away. -/
theorem ofSegments_eq_iff {template : String} {segments : List Segment}
    (h : Segment.cut 0 template.toList = .ok segments) : ∃ first clauses,
      IsCut template.toList first clauses ∧
      Token.ofSegments segments = tokensBy isReached 0 false first clauses ∧
      (Token.ofSegments segments = tokensBy isNextToMarker 0 false first clauses ↔
        MarkersStay false first clauses) := by
  obtain ⟨first, clauses, hcut, rfl⟩ := cut_eq_ok_iff.mp h
  refine ⟨first, clauses, hcut, ofSegments_segmentsFrom 0 first clauses, ?_⟩
  rw [ofSegments_segmentsFrom]
  exact ⟨fun heq => (textLength_tokensBy 0 false first clauses).2 (congrArg textLength heq),
    tokensBy_of_markersStay 0⟩

/-- Two markers next to blanks, and a comment without one. -/
def markedTemplate : String := "a \x7b\x7b- .Os -\x7d\x7d b\x7b\x7b/* c */\x7d\x7d"

theorem ofSegments_eq_iff_marked : ∃ segments,
    Segment.cut 0 markedTemplate.toList = .ok segments ∧
    Token.ofSegments segments =
      [.text ['a'] 0, .action ".Os".toList 2 13, .text ['b'] 14] := by
  have hcut : IsCut markedTemplate.toList "a ".toList
      [⟨"- .Os -".toList, " b".toList⟩, ⟨"/* c */".toList, []⟩] := by
    have h := @IsCut.action "a ".toList "- .Os -".toList _ _ _ (by decide) (by decide)
      (@IsCut.action " b".toList "/* c */".toList _ _ _ (by decide) (by decide)
        (@IsCut.text [] (by decide)))
    exact h
  have hsegments := cut_of_isCut hcut 0
  obtain ⟨first, clauses, hcut', -, hiff⟩ := ofSegments_eq_iff hsegments
  obtain ⟨rfl, rfl⟩ := hcut.unique hcut'
  exact ⟨_, hsegments, (hiff.mpr (by decide)).trans (by decide)⟩

/-- A comment stands between the blank and the marker. -/
def remarkTemplate : String := "a \x7b\x7b/* c */\x7d\x7d\x7b\x7b- .Os \x7d\x7d"

/-- The marker takes the blank, although the blank is printed: the comment is next to it. A no-break
space next to a marker is gone as well, although it is printed too: to a marker only spaces, tabs and
line ends are white space. -/
theorem marker_reaches_past_comment :
    (∃ first clauses, IsCut remarkTemplate.toList first clauses ∧
      Token.ofSegments (segmentsFrom 0 first clauses) =
        [.text ['a'] 0, .action ".Os".toList 13 23] ∧
      tokensBy isNextToMarker 0 false first clauses =
        [.text ['a', ' '] 0, .action ".Os".toList 13 23]) ∧
    assign "NAME=" remarkTemplate = .ok ⟨"NAME=", "a$\x7bOS\x7d"⟩ ∧
    assign "NAME=" "\x7b\x7b .Os -\x7d\x7d\u00a0\x7b\x7b .Arch \x7d\x7d" =
      .ok ⟨"NAME=", "$\x7bOS\x7d$\x7bARCH\x7d"⟩ := by
  have hcut : IsCut remarkTemplate.toList "a ".toList
      [⟨"/* c */".toList, []⟩, ⟨"- .Os ".toList, []⟩] := by
    have h := @IsCut.action "a ".toList "/* c */".toList _ _ _ (by decide) (by decide)
      (@IsCut.action [] "- .Os ".toList _ _ _ (by decide) (by decide)
        (@IsCut.text [] (by decide)))
    exact h
  refine ⟨⟨_, _, hcut, by decide, by decide⟩, ?_, ?_⟩
  · decide +kernel
  · decide +kernel

end ReleaseInstaller.NameTemplate
