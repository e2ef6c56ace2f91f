import Mathlib.Data.Option.Basic
import ReleaseInstaller.Proofs.Text.Split
import ReleaseInstaller.Proofs.Text.Trim
import ReleaseInstaller.Repo

/-! The short spelling of a repository, and when it is read as the repository that it spells. -/
namespace ReleaseInstaller
open Text

/-- The text without the slashes around it. -/
def withoutSlashes (path : List Char) : List Char :=
  dropEndWhile (· == '/') (path.dropWhile (· == '/'))

namespace Repo

variable {r : Repo} {path : List Char}

/-- An owner and a name, neither of them empty and none with a slash in it. -/
structure IsPair (r : Repo) : Prop where
  owner_ne_nil : r.owner.toList ≠ []
  name_ne_nil : r.name.toList ≠ []
  owner_noSlash : '/' ∉ r.owner.toList
  name_noSlash : '/' ∉ r.name.toList

theorem toList_display (r : Repo) : r.display.toList = r.owner.toList ++ '/' :: r.name.toList := by
  simp [display]

theorem display_ne_nil (r : Repo) : r.display.toList ≠ [] := by simp [toList_display]

/-- A path is read as the repository whose short spelling is left of it without the slashes around it
and one `.git` behind it. -/
theorem ofPath?_eq_some_iff : ofPath? path = some r ↔ r.IsPair ∧
    (beforeTail? ".git" (withoutSlashes path)).getD (withoutSlashes path) = r.display.toList := by
  unfold withoutSlashes
  simp only [ofPath?, Option.bind_eq_bind, Option.bind_eq_some_iff,
    Option.guard_eq_some', Option.pure_def, Option.some.injEq, Bool.and_eq_true, Bool.not_eq_true',
    List.isEmpty_eq_false_iff, Prod.exists, splitOnce?_eq_some_iff, toList_display]
  constructor
  · rintro ⟨owner, name, ⟨hpath, hslash⟩, -, ⟨⟨howner, hname⟩, hnone⟩, rfl⟩
    simp only [String.toList_ofList]
    refine ⟨⟨?_, ?_, ?_, ?_⟩, hpath⟩
    · simpa using howner
    · simpa using hname
    · simpa using hslash
    · simpa using hnone
  · rintro ⟨h, hpath⟩
    refine ⟨_, _, ⟨hpath, h.owner_noSlash⟩, (), ⟨⟨h.owner_ne_nil, h.name_ne_nil⟩, ?_⟩, ?_⟩
    · simpa using h.name_noSlash
    · simp only [String.ofList_toList]

theorem isPair_of_parse? {text : String} (h : parse? text = some r) : r.IsPair := by
  obtain ⟨path, -, hpath⟩ := Option.bind_eq_some_iff.mp h
  exact (ofPath?_eq_some_iff.mp hpath).1

/-- What is read of a path is part of it. -/
theorem display_infix_of_ofPath? (h : ofPath? path = some r) : r.display.toList <:+: path := by
  have hcore : withoutSlashes path <:+: path :=
    (isPrefix_dropEndWhile _ _).isInfix.trans (List.dropWhile_suffix _).isInfix
  rw [← (ofPath?_eq_some_iff.mp h).2]
  cases htail : beforeTail? ".git" (withoutSlashes path) with
  | none => exact hcore
  | some init =>
    have hinit : init <+: withoutSlashes path := ⟨_, (beforeTail?_eq_some_iff.mp htail).symm⟩
    exact hinit.isInfix.trans hcore

/-- A web address by its beginning. -/
def IsWeb (s : List Char) : Prop := "https://".toList <+: s ∨ "http://".toList <+: s

/-- A text that begins with a host, or with an address on it, and goes on with a path. -/
def IsHosted (s : List Char) : Prop :=
  "git@github.com:".toList <+: s ∨ "github.com/".toList <+: s

instance (s : List Char) : Decidable (IsWeb s) :=
  inferInstanceAs (Decidable ("https://".toList <+: s ∨ "http://".toList <+: s))

instance (s : List Char) : Decidable (IsHosted s) :=
  inferInstanceAs (Decidable ("git@github.com:".toList <+: s ∨ "github.com/".toList <+: s))

theorem not_isWeb_of_count {s : List Char} (h : s.count '/' ≤ 1) : ¬ IsWeb s := by
  have hno : ∀ lead : String, 1 < lead.toList.count '/' → ¬ lead.toList <+: s := by
    intro lead hlead hprefix
    have hle := hprefix.sublist.count_le '/'
    omega
  rintro (hweb | hweb)
  · exact hno "https://" (by decide) hweb
  · exact hno "http://" (by decide) hweb

theorem pathOf?_of_isWeb {s : List Char} (h : IsWeb s) : pathOf? s = pathOfUrl? s := by
  have hsome : ∀ lead : String, lead.toList <+: s → (afterLead? lead s).isSome = true := by
    rintro lead ⟨rest, hrest⟩
    rw [afterLead?_eq_some_iff.mpr hrest.symm]
    rfl
  refine if_pos (Bool.or_eq_true_iff.mpr ?_)
  exact h.imp (hsome "https://") (hsome "http://")

theorem pathOf?_of_not_isWeb {s : List Char} (h : ¬ IsWeb s) : pathOf? s =
    some (((afterLead? "git@github.com:" s) <|> (afterLead? "github.com/" s)).getD s) := by
  rw [pathOf?, afterLead?_eq_none_iff.mpr fun hweb => h (.inl hweb),
    afterLead?_eq_none_iff.mpr fun hweb => h (.inr hweb)]
  rfl

/-- What is in front of the path says where the repository is; without it all of the text is the path. -/
theorem cases_pathOf? {s : List Char} (h : ¬ IsWeb s) : (pathOf? s = some s ∧ ¬ IsHosted s) ∨
    ∃ (lead : String) (rest : List Char), (lead = "git@github.com:" ∨ lead = "github.com/") ∧
      s = lead.toList ++ rest ∧ pathOf? s = some rest ∧ IsHosted s := by
  rw [pathOf?_of_not_isWeb h]
  cases hssh : afterLead? "git@github.com:" s with
  | some rest =>
    have hs := afterLead?_eq_some_iff.mp hssh
    exact .inr ⟨_, rest, .inl rfl, hs, rfl, .inl ⟨rest, hs.symm⟩⟩
  | none =>
    cases hhost : afterLead? "github.com/" s with
    | some rest =>
      have hs := afterLead?_eq_some_iff.mp hhost
      exact .inr ⟨_, rest, .inr rfl, hs, rfl, .inr ⟨rest, hs.symm⟩⟩
    | none =>
      refine .inl ⟨rfl, ?_⟩
      rintro (hlead | hlead)
      · exact afterLead?_eq_none_iff.mp hssh hlead
      · exact afterLead?_eq_none_iff.mp hhost hlead

theorem infix_of_pathOf? {s : List Char} (hweb : ¬ IsWeb s) (h : pathOf? s = some path) :
    path <:+: s := by
  rcases cases_pathOf? hweb with ⟨hself, -⟩ | ⟨lead, rest, -, hs, hrest, -⟩
  · obtain rfl := Option.some.inj (hself.symm.trans h)
    exact List.infix_rfl
  · obtain rfl := Option.some.inj (hrest.symm.trans h)
    exact List.IsSuffix.isInfix ⟨_, hs.symm⟩

/-- The whole text is the path exactly if nothing in front of it says where the repository is. -/
theorem pathOf?_eq_self_iff {s : List Char} (hweb : ¬ IsWeb s) :
    pathOf? s = some s ↔ ¬ IsHosted s := by
  rcases cases_pathOf? hweb with ⟨hself, hno⟩ | ⟨lead, rest, hlead, hs, hrest, hhosted⟩
  · simp [hself, hno]
  · have hne : rest ≠ s := by
      intro hsame
      rw [hsame] at hs
      have hnil := List.self_eq_append_left.mp hs
      rcases hlead with rfl | rfl <;> exact absurd hnil (by decide)
    simp [hrest, hne, hhosted]

namespace IsPair

theorem count_display (h : r.IsPair) : r.display.toList.count '/' = 1 := by
  rw [toList_display, List.count_append, List.count_cons_self, List.count_eq_zero.mpr h.owner_noSlash,
    List.count_eq_zero.mpr h.name_noSlash]

theorem head?_display (h : r.IsPair) : r.display.toList.head? = r.owner.toList.head? := by
  rw [toList_display, List.head?_append_of_ne_nil _ h.owner_ne_nil]

theorem getLast?_display (h : r.IsPair) : r.display.toList.getLast? = r.name.toList.getLast? := by
  obtain ⟨c, rest, hname⟩ := List.exists_cons_of_ne_nil h.name_ne_nil
  rw [toList_display, hname, List.getLast?_append, List.getLast?_cons_cons]
  simp [List.getLast?_cons]

theorem head?_display_ne (h : r.IsPair) : ∀ c ∈ r.display.toList.head?, c ≠ '/' := by
  rintro c hc rfl
  rw [h.head?_display] at hc
  exact h.owner_noSlash (List.mem_of_head? hc)

theorem getLast?_display_ne (h : r.IsPair) : ∀ c ∈ r.display.toList.getLast?, c ≠ '/' := by
  rintro c hc rfl
  rw [h.getLast?_display] at hc
  exact h.name_noSlash (List.mem_of_getLast? hc)

theorem withoutSlashes_display (h : r.IsPair) : withoutSlashes r.display.toList = r.display.toList := by
  have hstart : r.display.toList.dropWhile (· == '/') = r.display.toList := by
    have hfirst := h.head?_display_ne
    cases hs : r.display.toList with
    | nil => rfl
    | cons c s =>
      rw [hs] at hfirst
      exact List.dropWhile_cons_of_neg (by simp [hfirst c rfl])
  rw [withoutSlashes, hstart]
  exact dropEndWhile_eq_self fun c hc => beq_false_of_ne (h.getLast?_display_ne c hc)

theorem ofPath?_display_iff (h : r.IsPair) :
    ofPath? r.display.toList = some r ↔ ¬ ".git".toList <:+ r.display.toList := by
  rw [ofPath?_eq_some_iff, h.withoutSlashes_display, ← beforeTail?_eq_none_iff]
  cases htail : beforeTail? ".git" r.display.toList with
  | none => simp [h]
  | some init =>
    have heq := beforeTail?_eq_some_iff.mp htail
    have hne : init ≠ r.display.toList := by
      intro hself
      rw [hself] at heq
      have hnil := List.self_eq_append_right.mp heq
      exact absurd hnil (by decide)
    simp [hne]

theorem parse?_display_iff_steps (h : r.IsPair) : parse? r.display = some r ↔
    trim r.display.toList = r.display.toList ∧ pathOf? r.display.toList = some r.display.toList ∧
      ofPath? r.display.toList = some r := by
  constructor
  · intro hparse
    obtain ⟨path, hpath, hr⟩ := Option.bind_eq_some_iff.mp hparse
    -- No step makes the text longer, and the last one needs all of it.
    have htrim := trim_infix r.display.toList
    have hslash : (trim r.display.toList).count '/' ≤ 1 := h.count_display ▸ htrim.sublist.count_le '/'
    have hpart := infix_of_pathOf? (not_isWeb_of_count hslash) hpath
    have hwhole := display_infix_of_ofPath? hr
    have hall := hwhole.trans hpart
    have hself : trim r.display.toList = r.display.toList :=
      htrim.eq_of_length (le_antisymm htrim.length_le hall.length_le)
    rw [hself] at hpart hpath
    have hsame : path = r.display.toList :=
      hpart.eq_of_length (le_antisymm hpart.length_le hwhole.length_le)
    rw [hsame] at hpath hr
    exact ⟨hself, hpath, hr⟩
  · rintro ⟨htrim, hpath, hr⟩
    rw [parse?, htrim, hpath]
    exact hr

end IsPair

/-- The short spelling stands for the repository alone: nothing in it looks like white space around it,
like a host or an address in front of it, or like the ending that is left out. -/
structure IsUnmistakable (r : Repo) : Prop where
  start : ∀ c ∈ r.owner.toList.head?, isBlank c = false
  stop : ∀ c ∈ r.name.toList.getLast?, isBlank c = false
  ne_host : r.owner ≠ "github.com"
  no_address : ¬ "git@github.com:".toList <+: r.owner.toList
  no_tail : ¬ ".git".toList <:+ r.name.toList

instance (r : Repo) : Decidable r.IsUnmistakable :=
  decidable_of_iff (r.owner.toList.head?.all (!isBlank ·) = true ∧
      r.name.toList.getLast?.all (!isBlank ·) = true ∧ r.owner ≠ "github.com" ∧
        ¬ "git@github.com:".toList <+: r.owner.toList ∧ ¬ ".git".toList <:+ r.name.toList) <| by
    simp only [Option.all_eq_true, Bool.not_eq_true']
    constructor
    · rintro ⟨hstart, hstop, hhost, haddress, htail⟩
      exact ⟨hstart, hstop, hhost, haddress, htail⟩
    · intro h
      exact ⟨h.start, h.stop, h.ne_host, h.no_address, h.no_tail⟩

/-- A repository that was read from a text, in whatever form, is read again from its short spelling
exactly if that spelling is unmistakable. -/
theorem parse?_display_iff {text : String} (h : parse? text = some r) :
    parse? r.display = some r ↔ r.IsUnmistakable := by
  have hpair := isPair_of_parse? h
  have hhost : "github.com/".toList = "github.com".toList ++ ['/'] := by decide
  have hslash : '/' ∉ "github.com".toList := by decide
  have haddress : '/' ∉ "git@github.com:".toList := by decide
  have htail : '/' ∉ ".git".toList := by decide
  have hweb : ¬ IsWeb r.display.toList := not_isWeb_of_count hpair.count_display.le
  rw [hpair.parse?_display_iff_steps, trim_eq_self_iff, pathOf?_eq_self_iff hweb, IsHosted, not_or,
    hpair.ofPath?_display_iff, hpair.head?_display, hpair.getLast?_display, toList_display, hhost,
    prefix_append_cons_iff haddress, prefix_snoc_iff hslash hpair.owner_noSlash,
    suffix_append_cons_iff htail, String.toList_inj]
  constructor
  · rintro ⟨⟨hstart, hstop⟩, ⟨hno, hne⟩, hend⟩
    exact ⟨hstart, hstop, Ne.symm hne, hno, hend⟩
  · rintro ⟨hstart, hstop, hne, hno, hend⟩
    exact ⟨⟨hstart, hstop⟩, ⟨hno, Ne.symm hne⟩, hend⟩

/-- A web address with a port, a step up and a query, read and spelled shortly. -/
theorem parse?_display_iff_web :
    parse? " https://me@GitHub.com:443/x/../foo/.bar.git?tab=readme " = some ⟨"foo", ".bar"⟩ ∧
      parse? "foo/.bar" = some ⟨"foo", ".bar"⟩ := by
  have hparse : parse? " https://me@GitHub.com:443/x/../foo/.bar.git?tab=readme " =
      some ⟨"foo", ".bar"⟩ := by decide +kernel
  have hunmistakable : IsUnmistakable ⟨"foo", ".bar"⟩ := by decide
  exact ⟨hparse, (parse?_display_iff hparse).mpr hunmistakable⟩

/-- Only one `.git` is left out, so a name that keeps one loses it when it is read again. -/
theorem kept_tail_is_lost : ¬ ∀ (text : String) (r : Repo), parse? text = some r →
    parse? r.display = some r := by
  intro h
  have hparse : parse? "foo/bar.git.git" = some ⟨"foo", "bar.git"⟩ := by decide
  have hagain : parse? "foo/bar.git" = some ⟨"foo", "bar"⟩ := by decide
  have hsame := (h "foo/bar.git.git" ⟨"foo", "bar.git"⟩ hparse).symm.trans hagain
  exact absurd hsame (by decide)

end Repo

end ReleaseInstaller
