import Mathlib.Data.List.Basic
import ReleaseInstaller.Text.Basic

/-! What a text is made of when it has been cut. -/
namespace ReleaseInstaller.Text

theorem afterLead?_eq_some_iff {lead : String} {s rest : List Char} :
    afterLead? lead s = some rest ↔ s = lead.toList ++ rest := by
  rw [afterLead?, List.isPrefixOf?_eq_some_iff_append_eq, eq_comm]

theorem beforeTail?_eq_some_iff {tail : String} {s init : List Char} :
    beforeTail? tail s = some init ↔ s = init ++ tail.toList := by
  rw [beforeTail?, Option.map_eq_some_iff]
  constructor
  · rintro ⟨r, hr, rfl⟩
    have h := congrArg List.reverse (List.isPrefixOf?_eq_some_iff_append_eq.mp hr)
    simpa using h.symm
  · rintro rfl
    exact ⟨init.reverse, List.isPrefixOf?_eq_some_iff_append_eq.mpr (by simp), by simp⟩

theorem afterLead?_eq_none_iff {lead : String} {s : List Char} :
    afterLead? lead s = none ↔ ¬ lead.toList <+: s := by
  rw [Option.eq_none_iff_forall_ne_some]
  constructor
  · rintro h ⟨rest, rfl⟩
    exact h rest (afterLead?_eq_some_iff.mpr rfl)
  · intro h rest hrest
    exact h ⟨rest, (afterLead?_eq_some_iff.mp hrest).symm⟩

theorem beforeTail?_eq_none_iff {tail : String} {s : List Char} :
    beforeTail? tail s = none ↔ ¬ tail.toList <:+ s := by
  rw [Option.eq_none_iff_forall_ne_some]
  constructor
  · rintro h ⟨init, rfl⟩
    exact h init (beforeTail?_eq_some_iff.mpr rfl)
  · intro h init hinit
    exact h ⟨init, (beforeTail?_eq_some_iff.mp hinit).symm⟩

theorem splitOnce?_append {sep : Char} {s : List Char} (h : sep ∉ s) (rest : List Char) :
    splitOnce? sep (s ++ sep :: rest) = some (s, rest) := by
  induction s with
  | nil => simp [splitOnce?]
  | cons c s ih =>
    rw [List.mem_cons, not_or] at h
    have hc : c ≠ sep := Ne.symm h.1
    rw [List.cons_append, splitOnce?, if_neg hc, ih h.2]
    rfl

theorem eq_append_of_splitOnce? {sep : Char} {s : List Char} {p : List Char × List Char}
    (h : splitOnce? sep s = some p) : s = p.1 ++ sep :: p.2 ∧ sep ∉ p.1 := by
  induction s generalizing p with
  | nil => contradiction
  | cons c s ih =>
    rw [splitOnce?] at h
    split at h
    · rename_i hc
      rw [← Option.some.inj h, hc]
      simp
    · rename_i hc
      obtain ⟨q, hq, rfl⟩ := Option.map_eq_some_iff.mp h
      obtain ⟨hs, hnot⟩ := ih hq
      have hsep : sep ≠ c := fun h => hc h.symm
      rw [List.mem_cons, not_or, List.cons_append]
      exact ⟨congrArg (c :: ·) hs, hsep, hnot⟩

/-- The first separator is the one before which there is none. -/
theorem splitOnce?_eq_some_iff {sep : Char} {s before after : List Char} :
    splitOnce? sep s = some (before, after) ↔ s = before ++ sep :: after ∧ sep ∉ before := by
  constructor
  · exact eq_append_of_splitOnce?
  · rintro ⟨rfl, hnot⟩
    exact splitOnce?_append hnot after

theorem splitAtAll_ne_nil (sep : Char → Bool) (s : List Char) : splitAtAll sep s ≠ [] := by
  unfold splitAtAll
  split
  · simp
  · split
    · simp
    · split <;> simp

/-- A separator ends a piece, and any other character begins the first piece of what follows. -/
theorem splitAtAll_cons (sep : Char → Bool) (c : Char) (s : List Char) :
    (sep c = true ∧ splitAtAll sep (c :: s) = [] :: splitAtAll sep s) ∨
      (sep c = false ∧ ∃ first pieces, splitAtAll sep s = first :: pieces ∧
        splitAtAll sep (c :: s) = (c :: first) :: pieces) := by
  obtain ⟨first, pieces, hpieces⟩ := List.exists_cons_of_ne_nil (splitAtAll_ne_nil sep s)
  cases hc : sep c with
  | true => exact .inl ⟨rfl, by simp [splitAtAll, hc]⟩
  | false => exact .inr ⟨rfl, first, pieces, hpieces, by simp [splitAtAll, hc, hpieces]⟩

/-- Every character of a piece is one of the text. -/
theorem mem_of_mem_splitAtAll {sep : Char → Bool} {s piece : List Char} (h : piece ∈ splitAtAll sep s) :
    ∀ c ∈ piece, c ∈ s := by
  induction s generalizing piece with
  | nil =>
    obtain rfl := List.mem_singleton.mp h
    simp
  | cons d s ih =>
    have hlater : ∀ {piece}, piece ∈ splitAtAll sep s → ∀ c ∈ piece, c ∈ d :: s :=
      fun hpiece c hc => List.mem_cons_of_mem d (ih hpiece c hc)
    rcases splitAtAll_cons sep d s with ⟨-, hsplit⟩ | ⟨-, first, pieces, hs, hsplit⟩
    · rw [hsplit] at h
      rcases List.mem_cons.mp h with rfl | hpiece
      · simp
      · exact hlater hpiece
    · rw [hsplit] at h
      rcases List.mem_cons.mp h with rfl | hpiece
      · exact List.forall_mem_cons.mpr ⟨List.mem_cons_self, hlater (hs ▸ List.mem_cons_self)⟩
      · exact hlater (hs ▸ List.mem_cons_of_mem first hpiece)

theorem splitAtAll_of_forall {sep : Char → Bool} {s : List Char} (h : ∀ c ∈ s, sep c = false) :
    splitAtAll sep s = [s] := by
  induction s with
  | nil => rfl
  | cons c s ih =>
    obtain ⟨hc, hs⟩ := List.forall_mem_cons.mp h
    simp [splitAtAll, hc, ih hs]

theorem splitAtAll_append {sep : Char → Bool} {s : List Char} {c : Char} (h : ∀ c ∈ s, sep c = false)
    (hc : sep c = true) (rest : List Char) :
    splitAtAll sep (s ++ c :: rest) = s :: splitAtAll sep rest := by
  induction s with
  | nil => simp [splitAtAll, hc]
  | cons d s ih =>
    obtain ⟨hd, hs⟩ := List.forall_mem_cons.mp h
    simp [splitAtAll, hd, ih hs]

/-- The pieces with the separator in front of each of them are the text, if all separators are the
same character. -/
theorem flatMap_splitAtAll {sep : Char → Bool} {s : List Char} {d : Char}
    (h : ∀ c ∈ s, sep c = true → c = d) :
    (splitAtAll sep s).flatMap (fun piece => d :: piece) = d :: s := by
  induction s with
  | nil => rfl
  | cons c s ih =>
    obtain ⟨hc, hs⟩ := List.forall_mem_cons.mp h
    specialize ih hs
    rcases splitAtAll_cons sep c s with ⟨hsep, hsplit⟩ | ⟨-, first, pieces, hpieces, hsplit⟩
    · rw [hsplit, List.flatMap_cons, ih, hc hsep]
      rfl
    · rw [hpieces, List.flatMap_cons, List.cons_append, List.cons.injEq] at ih
      rw [hsplit, List.flatMap_cons, List.cons_append, List.cons_append, ih.2]

/-- Pieces that are joined by a separator, which none of them holds, are the pieces between the
separators. -/
theorem splitAtAll_intercalate {c : Char} {pieces : List (List Char)} (hne : pieces ≠ [])
    (h : ∀ piece ∈ pieces, c ∉ piece) : splitAtAll (· = c) ([c].intercalate pieces) = pieces := by
  have hfree : ∀ {piece : List Char}, c ∉ piece → ∀ d ∈ piece, decide (d = c) = false :=
    fun hc d hd => decide_eq_false fun heq => hc (heq ▸ hd)
  induction pieces with
  | nil => contradiction
  | cons piece pieces ih =>
    obtain ⟨hpiece, hpieces⟩ := List.forall_mem_cons.mp h
    cases pieces with
    | nil => rw [List.intercalate_singleton, splitAtAll_of_forall (hfree hpiece)]
    | cons next pieces =>
      rw [List.intercalate_cons_cons, List.append_assoc, List.singleton_append,
        splitAtAll_append (hfree hpiece) (by simp), ih (by simp) hpieces]

theorem intercalate_splitAtAll (c : Char) (s : List Char) :
    [c].intercalate (splitAtAll (· = c) s) = s := by
  induction s with
  | nil => rfl
  | cons d s ih =>
    have hne := splitAtAll_ne_nil (· = c) s
    rcases splitAtAll_cons (· = c) d s with ⟨hd, hsplit⟩ | ⟨-, first, pieces, hs, hsplit⟩
    · rw [hsplit, List.intercalate_cons_of_ne_nil hne, ih, of_decide_eq_true hd]
      rfl
    · rw [hs] at ih
      rw [hsplit]
      cases pieces with
      | nil => simpa using ih
      | cons next pieces => simpa [List.intercalate_cons_cons] using ih

/-- No piece holds a separator. -/
theorem not_mem_of_mem_splitAtAll {c : Char} {s piece : List Char}
    (h : piece ∈ splitAtAll (· = c) s) : c ∉ piece := by
  induction s generalizing piece with
  | nil =>
    obtain rfl := List.mem_singleton.mp h
    simp
  | cons d s ih =>
    rcases splitAtAll_cons (· = c) d s with ⟨-, hsplit⟩ | ⟨hd, first, pieces, hs, hsplit⟩
    · rw [hsplit] at h
      rcases List.mem_cons.mp h with rfl | hpiece
      · simp
      · exact ih hpiece
    · rw [hs] at ih
      rw [hsplit] at h
      rcases List.mem_cons.mp h with rfl | hpiece
      · have hne : c ≠ d := fun heq => of_decide_eq_false hd heq.symm
        exact List.not_mem_cons_of_ne_of_not_mem hne (ih List.mem_cons_self)
      · exact ih (List.mem_cons_of_mem first hpiece)

theorem takeWhile_append_stop {p : Char → Bool} {c : Char} (hc : p c = false) (s t : List Char) :
    (s ++ c :: t).takeWhile p = s.takeWhile p := by
  induction s with
  | nil => simp [hc]
  | cons d s ih => rw [List.cons_append, List.takeWhile_cons, List.takeWhile_cons, ih]

section Separators
variable {c : Char} {s t lead tail : List Char}

theorem not_prefix_of_head? (hne : lead ≠ []) (h : lead.head? ≠ s.head?) : ¬ lead <+: s := by
  rintro ⟨rest, rfl⟩
  exact h (List.head?_append_of_ne_nil lead hne).symm

/-- A beginning without the separator is a beginning of the first piece. -/
theorem prefix_append_cons_iff (h : c ∉ lead) : lead <+: s ++ c :: t ↔ lead <+: s := by
  refine ⟨fun hlead => ?_, fun hlead => hlead.trans (List.prefix_append s (c :: t))⟩
  have hfirst : s ++ [c] <+: s ++ c :: t := ⟨t, by simp⟩
  rcases List.prefix_or_prefix_of_prefix hlead hfirst with hl | hl
  · rcases List.prefix_concat_iff.mp hl with rfl | hs
    · simp at h
    · exact hs
  · exact absurd (hl.mem (by simp)) h

theorem suffix_append_cons_iff (h : c ∉ tail) : tail <:+ s ++ c :: t ↔ tail <:+ t := by
  have hreverse : (s ++ c :: t).reverse = t.reverse ++ c :: s.reverse := by simp
  rw [← List.reverse_prefix, hreverse, prefix_append_cons_iff (by simpa using h), List.reverse_prefix]

/-- A beginning up to the first separator is the first piece. -/
theorem prefix_snoc_iff (hlead : c ∉ lead) (hs : c ∉ s) : lead ++ [c] <+: s ++ c :: t ↔ lead = s := by
  constructor
  · rintro ⟨rest, hrest⟩
    rw [List.append_assoc, List.singleton_append] at hrest
    have hfirst := splitOnce?_eq_some_iff.mpr ⟨hrest.symm, hlead⟩
    rw [splitOnce?_eq_some_iff.mpr ⟨rfl, hs⟩] at hfirst
    exact (Prod.mk.inj (Option.some.inj hfirst)).1.symm
  · rintro rfl
    exact ⟨t, by simp⟩

end Separators

end ReleaseInstaller.Text
