import ReleaseInstaller.Text.Basic

/-! Texts of whole lines. What follows such a text is read on its own. -/
namespace ReleaseInstaller.Text

/-- The text consists of lines with an end. -/
def WholeLines (s : List Char) : Prop := ∀ c ∈ s.getLast?, c = '\n'

/-- A text that stays one line when a line feed of any kind is put behind it. -/
structure IsLine (s : List Char) : Prop where
  noFeed : '\n' ∉ s
  noReturn : s.getLast? ≠ some '\r'

theorem wholeLines_nil : WholeLines [] := by
  simp [WholeLines]

theorem wholeLines_feed (s : List Char) : WholeLines (s ++ ['\n']) := by
  simp [WholeLines]

theorem WholeLines.append {s t : List Char} (hs : WholeLines s) (ht : WholeLines t) :
    WholeLines (s ++ t) := by
  cases t with
  | nil => simpa using hs
  | cons c t => simpa [WholeLines, List.getLast?_append, List.getLast?_cons] using ht

theorem wholeLines_flatMap {α : Type} {f : α → List Char} {l : List α}
    (h : ∀ x ∈ l, WholeLines (f x)) : WholeLines (l.flatMap f) := by
  induction l with
  | nil => exact wholeLines_nil
  | cons x l ih =>
    rw [List.flatMap_cons]
    exact (h x (by simp)).append (ih fun y hy => h y (by simp [hy]))

theorem WholeLines.tail {c : Char} {s : List Char} (h : WholeLines (c :: s)) : WholeLines s := by
  cases s with
  | nil => exact wholeLines_nil
  | cons d s => simpa [WholeLines, List.getLast?_cons] using h

theorem WholeLines.eq_feed {c : Char} (h : WholeLines [c]) : c = '\n' := h c rfl

theorem unixNewlines_pair (s : List Char) :
    unixNewlines ('\r' :: '\n' :: s) = '\n' :: unixNewlines s := rfl

theorem unixNewlines_cons {c : Char} {s : List Char} (h : ∀ t, c = '\r' → s = '\n' :: t → False) :
    unixNewlines (c :: s) = c :: unixNewlines s :=
  unixNewlines.eq_3 c s h

/-- A line feed is read with what is before it, so nothing reaches beyond whole lines. -/
theorem unixNewlines_append {s : List Char} (h : WholeLines s) (t : List Char) :
    unixNewlines (s ++ t) = unixNewlines s ++ unixNewlines t := by
  fun_induction unixNewlines s with
  | case1 => rfl
  | case2 rest ih =>
    rw [List.cons_append, List.cons_append, unixNewlines_pair, ih h.tail.tail, List.cons_append]
  | case3 c rest hcr ih =>
    have hpair : ∀ u, c = '\r' → rest ++ t = '\n' :: u → False := by
      rintro u rfl hu
      cases rest with
      | nil => exact absurd h.eq_feed (by decide)
      | cons d rest =>
        obtain ⟨rfl, -⟩ := List.cons.inj hu
        exact hcr rest rfl rfl
    rw [List.cons_append, unixNewlines_cons hpair, ih h.tail, List.cons_append]

theorem WholeLines.cons {c : Char} {s : List Char} (h : WholeLines s) (hs : s ≠ []) :
    WholeLines (c :: s) := by
  cases s with
  | nil => contradiction
  | cons d s => simpa [WholeLines, List.getLast?_cons] using h

theorem unixNewlines_ne_nil {s : List Char} (h : s ≠ []) : unixNewlines s ≠ [] := by
  fun_cases unixNewlines s <;> simp at h ⊢

theorem unixNewlines_wholeLines {s : List Char} (h : WholeLines s) :
    WholeLines (unixNewlines s) := by
  fun_induction unixNewlines s with
  | case1 => exact h
  | case2 rest ih => exact (wholeLines_feed []).append (ih h.tail.tail)
  | case3 c rest _ ih =>
    by_cases hr : rest = []
    · subst hr
      exact h
    · exact (ih h.tail).cons (unixNewlines_ne_nil hr)

/-- One line keeps its characters. -/
theorem IsLine.unixNewlines_feed {s : List Char} (h : IsLine s) :
    unixNewlines (s ++ ['\n']) = s ++ ['\n'] := by
  obtain ⟨hfeed, hreturn⟩ := h
  fun_induction unixNewlines s with
  | case1 => rfl
  | case2 rest ih => simp at hfeed
  | case3 c rest hcr ih =>
    have hr : rest.getLast? ≠ some '\r' := by
      intro hr
      simp [List.getLast?_cons, hr] at hreturn
    have hpair : ∀ u, c = '\r' → rest ++ ['\n'] = '\n' :: u → False := by
      rintro u rfl hu
      cases rest with
      | nil => simp at hreturn
      | cons d rest =>
        obtain ⟨rfl, -⟩ := List.cons.inj hu
        exact hcr rest rfl rfl
    rw [List.cons_append, unixNewlines_cons hpair, ih (fun hm => hfeed (by simp [hm])) hr]

/-- The text with `CR LF` for each `LF`. -/
def dosNewlines (s : List Char) : List Char :=
  s.flatMap fun c => if c = '\n' then ['\r', '\n'] else [c]

theorem dosNewlines_feed (s : List Char) : dosNewlines ('\n' :: s) = '\r' :: '\n' :: dosNewlines s := by
  rw [dosNewlines, List.flatMap_cons, if_pos rfl]
  rfl

theorem dosNewlines_cons {c : Char} (hc : c ≠ '\n') (s : List Char) :
    dosNewlines (c :: s) = c :: dosNewlines s := by
  rw [dosNewlines, List.flatMap_cons, if_neg hc]
  rfl

theorem dosNewlines_ne_feed (s t : List Char) : dosNewlines s ≠ '\n' :: t := by
  cases s with
  | nil => simp [dosNewlines]
  | cons c s =>
    by_cases hc : c = '\n'
    · simp [hc, dosNewlines_feed]
    · simp [dosNewlines_cons hc, hc]

/-- Each `LF` comes back alone, whatever stands before it. -/
theorem unixNewlines_dosNewlines (s : List Char) : unixNewlines (dosNewlines s) = s := by
  induction s with
  | nil => rfl
  | cons c s ih =>
    by_cases hc : c = '\n'
    · rw [hc, dosNewlines_feed, unixNewlines_pair, ih]
    · have hpair : ∀ t, c = '\r' → dosNewlines s = '\n' :: t → False :=
        fun t _ ht => dosNewlines_ne_feed s t ht
      rw [dosNewlines_cons hc, unixNewlines_cons hpair, ih]

theorem linesWithEnd_start (s : List Char) : linesWithEnd ('\n' :: s) = ['\n'] :: linesWithEnd s :=
  if_pos rfl

theorem linesWithEnd_cons {c : Char} {s line : List Char} {lines : List (List Char)} (hc : c ≠ '\n')
    (h : linesWithEnd s = line :: lines) : linesWithEnd (c :: s) = (c :: line) :: lines :=
  (if_neg hc).trans (by rw [h])

theorem linesWithEnd_ne_nil {s : List Char} (h : s ≠ []) : linesWithEnd s ≠ [] := by
  cases s with
  | nil => contradiction
  | cons c s =>
    rw [linesWithEnd]
    split
    · simp
    · split <;> simp

theorem linesWithEnd_append {s : List Char} (h : WholeLines s) (t : List Char) :
    linesWithEnd (s ++ t) = linesWithEnd s ++ linesWithEnd t := by
  induction s with
  | nil => rfl
  | cons c s ih =>
    have hs := ih h.tail
    by_cases hc : c = '\n'
    · rw [hc, List.cons_append, linesWithEnd_start, hs, linesWithEnd_start, List.cons_append]
    · have hne : s ≠ [] := by
        rintro rfl
        exact hc h.eq_feed
      obtain ⟨line, lines, hl⟩ := List.exists_cons_of_ne_nil (linesWithEnd_ne_nil hne)
      rw [hl, List.cons_append] at hs
      rw [List.cons_append, linesWithEnd_cons hc hs, linesWithEnd_cons hc hl, List.cons_append]

theorem linesWithEnd_feeds {s : List Char} (h : WholeLines s) :
    ∀ line ∈ linesWithEnd s, ∃ body, line = body ++ ['\n'] := by
  induction s with
  | nil => exact fun _ hline => absurd hline List.not_mem_nil
  | cons c s ih =>
    have hs := ih h.tail
    by_cases hc : c = '\n'
    · rw [hc, linesWithEnd_start, List.forall_mem_cons]
      exact ⟨⟨[], rfl⟩, hs⟩
    · have hne : s ≠ [] := by
        rintro rfl
        exact hc h.eq_feed
      obtain ⟨line, lines, hl⟩ := List.exists_cons_of_ne_nil (linesWithEnd_ne_nil hne)
      rw [hl, List.forall_mem_cons] at hs
      obtain ⟨⟨body, rfl⟩, hlines⟩ := hs
      rw [linesWithEnd_cons hc hl, List.forall_mem_cons]
      exact ⟨⟨c :: body, rfl⟩, hlines⟩

theorem linesWithEnd_feed {s : List Char} (h : '\n' ∉ s) :
    linesWithEnd (s ++ ['\n']) = [s ++ ['\n']] := by
  induction s with
  | nil => rfl
  | cons c s ih =>
    rw [List.mem_cons, not_or] at h
    exact linesWithEnd_cons (Ne.symm h.1) (ih h.2)

/-- The last line need not have an end. -/
theorem linesWithEnd_last {s : List Char} (hne : s ≠ []) (h : '\n' ∉ s) : linesWithEnd s = [s] := by
  induction s with
  | nil => contradiction
  | cons c s ih =>
    rw [List.mem_cons, not_or] at h
    by_cases hs : s = []
    · rw [hs]
      exact if_neg (Ne.symm h.1)
    · exact linesWithEnd_cons (Ne.symm h.1) (ih hs h.2)

theorem dropLineEnd_feed {s : List Char} (h : s.getLast? ≠ some '\r') :
    dropLineEnd (s ++ ['\n']) = s := by
  have hfeed : (s ++ ['\n']).reverse = '\n' :: s.reverse := by simp
  rw [dropLineEnd, hfeed]
  split
  · rename_i body heq
    have hs : s = body.reverse ++ ['\r'] := by simpa using congrArg List.reverse (List.cons.inj heq).2
    simp [hs] at h
  · rename_i body _ heq
    rw [← (List.cons.inj heq).2, List.reverse_reverse]
  · rename_i hnone
    exact absurd rfl (hnone s.reverse)

theorem lines_append {s : List Char} (h : WholeLines s) (t : List Char) :
    lines (s ++ t) = lines s ++ lines t := by
  rw [lines, linesWithEnd_append h, List.map_append]
  rfl

theorem IsLine.lines_feed {s : List Char} (h : IsLine s) : lines (s ++ ['\n']) = [s] := by
  rw [lines, linesWithEnd_feed h.noFeed, List.map_singleton, dropLineEnd_feed h.noReturn]

end ReleaseInstaller.Text
