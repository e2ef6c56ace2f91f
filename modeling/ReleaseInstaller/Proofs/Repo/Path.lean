import ReleaseInstaller.Proofs.Repo.Spelling

/-! Paths that hold an owner and a name, and what slashes in front of the spelling of a repository
change about it. -/
namespace ReleaseInstaller
open Text

def slashes (n : Nat) : String := String.ofList (List.replicate n '/')

theorem toList_slashes (n : Nat) : (slashes n).toList = List.replicate n '/' := by simp [slashes]

theorem forall_mem_slashes (n : Nat) : ∀ c ∈ (slashes n).toList, (c == '/') = true := by
  intro c hc
  rw [toList_slashes] at hc
  rw [List.eq_of_mem_replicate hc]
  rfl

theorem eq_slashes {s : List Char} (h : ∀ c ∈ s, (c == '/') = true) : s = (slashes s.length).toList := by
  rw [toList_slashes, List.eq_replicate_iff]
  exact ⟨rfl, fun c hc => eq_of_beq (h c hc)⟩

/-- A text that neither begins nor ends with a slash is what is left of it with slashes around it. -/
theorem withoutSlashes_padded {core : List Char} (hfirst : ∀ c ∈ core.head?, c ≠ '/')
    (hlast : ∀ c ∈ core.getLast?, c ≠ '/') (n m : Nat) :
    withoutSlashes ((slashes n).toList ++ core ++ (slashes m).toList) = core := by
  have hend : dropEndWhile (· == '/') (core ++ (slashes m).toList) = core := by
    rw [dropEndWhile_append_of_pos (forall_mem_slashes m)]
    exact dropEndWhile_eq_self fun c hc => beq_false_of_ne (hlast c hc)
  rw [withoutSlashes, List.append_assoc, List.dropWhile_append_of_pos (forall_mem_slashes n)]
  cases core with
  | nil =>
    rw [List.nil_append, List.dropWhile_eq_nil_iff.mpr (forall_mem_slashes m)]
    rfl
  | cons c core =>
    have hc : (c == '/') = false := beq_false_of_ne (hfirst c rfl)
    rw [List.cons_append, List.dropWhile_cons_of_neg (by simp [hc]), ← List.cons_append, hend]

theorem exists_withoutSlashes (path : List Char) : ∃ n m,
    path = (slashes n).toList ++ withoutSlashes path ++ (slashes m).toList := by
  obtain ⟨before, hstart, hbefore⟩ := exists_dropWhile (· == '/') path
  obtain ⟨after, hend, hafter⟩ := exists_dropEndWhile (· == '/') (path.dropWhile (· == '/'))
  refine ⟨before.length, after.length, ?_⟩
  rw [← eq_slashes hbefore, ← eq_slashes hafter, List.append_assoc, withoutSlashes, ← hend, ← hstart]

namespace Repo

variable {r : Repo} {path lead rest : List Char}

/-- What may follow a repository: the ending that is left out, and slashes. -/
structure Ending where
  git : Bool
  slashes : Nat
  deriving DecidableEq, Repr

namespace Ending

/-- The ending that is left out, if it is there. -/
def tail (e : Ending) : String := if e.git then ".git" else ""

def text (e : Ending) : String := e.tail ++ ReleaseInstaller.slashes e.slashes

theorem length_tail_le (e : Ending) : e.tail.toList.length ≤ 4 := by
  unfold tail
  split <;> decide

end Ending

namespace IsPair

theorem getLast?_ending_ne (h : r.IsPair) (e : Ending) :
    ∀ c ∈ (r.display.toList ++ e.tail.toList).getLast?, c ≠ '/' := by
  cases hgit : e.git with
  | false =>
    rw [Ending.tail, hgit, if_neg Bool.false_ne_true, String.toList_empty, List.append_nil]
    exact h.getLast?_display_ne
  | true =>
    rw [Ending.tail, hgit, if_pos rfl, List.getLast?_append_of_ne_nil _ (by decide)]
    simp

/-- All that is left of a spelling without the slashes around it. -/
theorem withoutSlashes_padded (h : r.IsPair) (n : Nat) (e : Ending) :
    withoutSlashes ((slashes n).toList ++ r.display.toList ++ e.text.toList) =
      r.display.toList ++ e.tail.toList := by
  have hfirst : ∀ c ∈ (r.display.toList ++ e.tail.toList).head?, c ≠ '/' := by
    rw [List.head?_append_of_ne_nil _ r.display_ne_nil]
    exact h.head?_display_ne
  have hpath : (slashes n).toList ++ r.display.toList ++ e.text.toList =
      (slashes n).toList ++ (r.display.toList ++ e.tail.toList) ++ (slashes e.slashes).toList := by
    simp [Ending.text]
  rw [hpath, ReleaseInstaller.withoutSlashes_padded hfirst (h.getLast?_ending_ne e)]

end IsPair

/-- A path is read as a repository exactly if it is the short spelling with slashes around it and at
most one ending that is left out. -/
theorem ofPath?_eq_some_iff_padded : ofPath? path = some r ↔ r.IsPair ∧ ∃ (n : Nat) (e : Ending),
    path = (slashes n).toList ++ r.display.toList ++ e.text.toList ∧
      (e.git = false → ¬ ".git".toList <:+ r.name.toList) := by
  have htail : '/' ∉ ".git".toList := by decide
  rw [ofPath?_eq_some_iff]
  constructor
  · rintro ⟨hpair, hcore⟩
    refine ⟨hpair, ?_⟩
    obtain ⟨n, m, hpath⟩ := exists_withoutSlashes path
    cases hgit : beforeTail? ".git" (withoutSlashes path) with
    | none =>
      rw [hgit, Option.getD_none] at hcore
      refine ⟨n, ⟨false, m⟩, ?_, fun _ => ?_⟩
      · rw [hcore] at hpath
        simpa [Ending.text, Ending.tail] using hpath
      · rw [beforeTail?_eq_none_iff, hcore, toList_display, suffix_append_cons_iff htail] at hgit
        exact hgit
    | some init =>
      rw [hgit, Option.getD_some] at hcore
      rw [beforeTail?_eq_some_iff, hcore] at hgit
      refine ⟨n, ⟨true, m⟩, ?_, nofun⟩
      rw [hgit] at hpath
      simpa [Ending.text, Ending.tail] using hpath
  · rintro ⟨hpair, n, e, rfl, hname⟩
    refine ⟨hpair, ?_⟩
    rw [hpair.withoutSlashes_padded]
    cases hgit : e.git with
    | false =>
      have hnone : beforeTail? ".git" r.display.toList = none := by
        rw [beforeTail?_eq_none_iff, toList_display, suffix_append_cons_iff htail]
        exact hname hgit
      simp [Ending.tail, hgit, hnone]
    | true =>
      have hsome : beforeTail? ".git" (r.display.toList ++ ".git".toList) = some r.display.toList :=
        beforeTail?_eq_some_iff.mpr rfl
      simp only [Ending.tail, hgit, if_true, hsome, Option.getD_some]

/-- There is one slash in what is read of a path. -/
theorem count_of_ofPath? (h : ofPath? path = some r) : (withoutSlashes path).count '/' = 1 := by
  obtain ⟨hpair, n, e, rfl, -⟩ := ofPath?_eq_some_iff_padded.mp h
  have htail : e.tail.toList.count '/' = 0 := by
    unfold Ending.tail
    split <;> decide
  rw [hpair.withoutSlashes_padded, List.count_append, hpair.count_display, htail]

/-- A path with more parts than an owner and a name, or fewer, is no repository. -/
theorem ofPath?_eq_none_of_count {core : List Char} (hfirst : ∀ c ∈ core.head?, c ≠ '/')
    (hlast : ∀ c ∈ core.getLast?, c ≠ '/') (hcount : core.count '/' ≠ 1) (n m : Nat) :
    ofPath? ((slashes n).toList ++ core ++ (slashes m).toList) = none := by
  rw [Option.eq_none_iff_forall_ne_some]
  intro r hr
  have hone := count_of_ofPath? hr
  rw [withoutSlashes_padded hfirst hlast] at hone
  exact hcount hone

/-- Slashes in front of a path do not count. -/
theorem ofPath?_slashes (n : Nat) (path : List Char) :
    ofPath? ((slashes n).toList ++ path) = ofPath? path := by
  unfold ofPath?
  rw [List.dropWhile_append_of_pos (forall_mem_slashes n)]

/-- A text in front of a path becomes part of the owner, or there is no repository. -/
theorem ofPath?_append_ne (hlength : 4 < lead.length) (hfirst : ∀ c ∈ lead.head?, c ≠ '/')
    (h : ofPath? rest = some r) : ofPath? (lead ++ rest) ≠ some r := by
  intro hlong
  obtain ⟨hpair, n, e, hrest, -⟩ := ofPath?_eq_some_iff_padded.mp h
  obtain ⟨-, m, f, hpath, -⟩ := ofPath?_eq_some_iff_padded.mp hlong
  have hlead : lead ≠ [] := List.ne_nil_of_length_pos (by omega)
  have hstart : ∀ c ∈ (lead ++ (slashes n).toList ++ (r.display.toList ++ e.tail.toList)).head?,
      c ≠ '/' := by
    rw [List.append_assoc, List.head?_append_of_ne_nil _ hlead]
    exact hfirst
  have hstop : ∀ c ∈ (lead ++ (slashes n).toList ++ (r.display.toList ++ e.tail.toList)).getLast?,
      c ≠ '/' := by
    rw [List.getLast?_append_of_ne_nil _ (by simp [r.display_ne_nil])]
    exact hpair.getLast?_ending_ne e
  -- What is left without the slashes is too long for the repository and its ending.
  have hcore : lead ++ (slashes n).toList ++ (r.display.toList ++ e.tail.toList) =
      r.display.toList ++ f.tail.toList := by
    rw [← hpair.withoutSlashes_padded m f, ← hpath, hrest,
      ← withoutSlashes_padded hstart hstop 0 e.slashes]
    simp [Ending.text, slashes]
  have hlengths := congrArg List.length hcore
  have htail := f.length_tail_le
  simp only [List.length_append] at hlengths
  omega

theorem trim_slashes {s : List Char} (h : trim s = s) (n : Nat) :
    trim ((slashes n).toList ++ s) = (slashes n).toList ++ s := by
  have hslash : isBlank '/' = false := by decide
  rw [trim_eq_self_iff] at h ⊢
  have hall : ∀ c ∈ (slashes n).toList, isBlank c = false :=
    fun c hc => eq_of_beq (forall_mem_slashes n c hc) ▸ hslash
  constructor
  · intro c hc
    rw [List.head?_append, Option.mem_def, Option.or_eq_some_iff] at hc
    rcases hc with hc | ⟨-, hc⟩
    · exact hall c (List.mem_of_head? hc)
    · exact h.1 c hc
  · intro c hc
    rw [List.getLast?_append, Option.mem_def, Option.or_eq_some_iff] at hc
    rcases hc with hc | ⟨-, hc⟩
    · exact h.2 c hc
    · exact hall c (List.mem_of_getLast? hc)

/-- Nothing is taken off a text that begins with a slash before it is read as a path. -/
theorem pathOf?_slash (s : List Char) : pathOf? ('/' :: s) = some ('/' :: s) := by
  have hweb : ¬ IsWeb ('/' :: s) := by
    rw [IsWeb, not_or]
    exact ⟨not_prefix_of_head? (by decide) (by simp), not_prefix_of_head? (by decide) (by simp)⟩
  rw [pathOf?_eq_self_iff hweb, IsHosted, not_or]
  exact ⟨not_prefix_of_head? (by decide) (by simp), not_prefix_of_head? (by decide) (by simp)⟩

/-- Behind slashes, the whole text is the path of a repository. -/
theorem parse?_slashes_succ {s : String} (h : trim s.toList = s.toList) (n : Nat) :
    parse? (slashes (n + 1) ++ s) = ofPath? s.toList := by
  rw [parse?, String.toList_append, trim_slashes h]
  have hpath : pathOf? ((slashes (n + 1)).toList ++ s.toList) =
      some ((slashes (n + 1)).toList ++ s.toList) := by
    rw [toList_slashes, List.replicate_succ, List.cons_append, pathOf?_slash]
  rw [hpath, Option.bind_eq_bind, Option.bind_some, ofPath?_slashes]

/-- Slashes in front of a text change nothing, unless it begins with a host or with an address on it:
these count only at the very beginning, so that such a text has to be refused in both forms. -/
theorem parse?_slashes_iff {s : String} (hblank : trim s.toList = s.toList) (hweb : ¬ IsWeb s.toList)
    (n : Nat) : parse? (slashes n ++ s) = parse? s ↔
      n = 0 ∨ ¬ IsHosted s.toList ∨ (parse? s = none ∧ parse? ("/" ++ s) = none) := by
  have hone : parse? ("/" ++ s) = ofPath? s.toList := parse?_slashes_succ hblank 0
  have hparse : ∀ path, pathOf? s.toList = some path → parse? s = ofPath? path := by
    intro path hpath
    rw [parse?, hblank, hpath]
    rfl
  cases n with
  | zero => simp [slashes]
  | succ n =>
    rw [parse?_slashes_succ hblank, hone]
    rcases cases_pathOf? hweb with ⟨hself, hno⟩ | ⟨lead, rest, hlead, hs, hrest, hhosted⟩
    · simp [hparse _ hself, hno]
    · rw [hparse rest hrest]
      constructor
      · intro hsame
        refine .inr (.inr ?_)
        cases hr : ofPath? rest with
        | none => exact ⟨rfl, hsame.trans hr⟩
        | some r =>
          have hne : ofPath? (lead.toList ++ rest) ≠ some r := by
            rcases hlead with rfl | rfl <;> exact ofPath?_append_ne (by decide) (by simp) hr
          exact absurd (hsame.trans hr) (hs ▸ hne)
      · rintro (hzero | hno | ⟨hrefused, hrefused'⟩)
        · exact absurd hzero (Nat.succ_ne_zero n)
        · exact absurd hhosted hno
        · rw [hrefused, hrefused']

/-- A short spelling is read behind any number of slashes; one behind a host is not. -/
theorem parse?_slashes_iff_short_and_hosted :
    trim "foo/bar.git".toList = "foo/bar.git".toList ∧ ¬ IsWeb "foo/bar.git".toList ∧
      (∀ n, parse? (slashes n ++ "foo/bar.git") = some ⟨"foo", "bar"⟩) ∧
      parse? (slashes 2 ++ "github.com/foo") ≠ parse? "github.com/foo" := by
  have hblank : trim "foo/bar.git".toList = "foo/bar.git".toList := by decide
  have hweb : ¬ IsWeb "foo/bar.git".toList := by decide
  have hparse : parse? "foo/bar.git" = some ⟨"foo", "bar"⟩ := by decide
  refine ⟨hblank, hweb, fun n => ?_, ?_⟩
  · rw [(parse?_slashes_iff hblank hweb n).mpr (.inr (.inl (by decide))), hparse]
  · rw [Ne, parse?_slashes_iff (by decide) (by decide)]
    decide

/-- The host is not found behind slashes, so that the repository on it is refused. -/
theorem slashes_hide_host : ¬ ∀ (s : String) (n : Nat), trim s.toList = s.toList → ¬ IsWeb s.toList →
    parse? (slashes n ++ s) = parse? s := by
  intro h
  have hsame := h "github.com/foo/bar" 1 (by decide) (by decide)
  have hplain : parse? "github.com/foo/bar" = some ⟨"foo", "bar"⟩ := by decide
  have hbehind : parse? (slashes 1 ++ "github.com/foo/bar") = none := by decide
  rw [hplain, hbehind] at hsame
  contradiction

end Repo

end ReleaseInstaller
