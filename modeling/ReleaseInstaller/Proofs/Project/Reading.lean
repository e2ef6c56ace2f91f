import Mathlib.Data.List.Forall2
import ReleaseInstaller.Project.Reader

/-! What it takes to read a description in some notation: what a record gives to each of its fields
has to be read. -/
namespace ReleaseInstaller
open ValueReader

variable {α : Type} {n : ValueReader α} {v : α}

section Values
variable {β : Type} {read : α → Option β}

theorem mapM_eq_some_iff {items : List α} {l : List β} :
    items.mapM read = some l ↔ List.Forall₂ (fun v x => read v = some x) items l := by
  induction items generalizing l with
  | nil =>
    rw [List.mapM_nil, List.forall₂_nil_left_iff]
    exact Option.some_inj.trans eq_comm
  | cons v items ih =>
    simp only [List.mapM_cons, Option.bind_eq_bind, Option.bind_eq_some_iff, Option.pure_def,
      Option.some.injEq, List.forall₂_cons_left_iff, ih]
    constructor
    · rintro ⟨x, hx, l, hl, rfl⟩
      exact ⟨x, l, hx, hl, rfl⟩
    · rintro ⟨x, l, hx, hl, rfl⟩
      exact ⟨x, hx, l, hl, rfl⟩

/-- Something can be read off all items if it can off each. -/
theorem exists_forall₂_iff {R : α → β → Prop} {items : List α} :
    (∃ l, List.Forall₂ R items l) ↔ ∀ v ∈ items, ∃ x, R v x := by
  induction items with
  | nil => exact iff_of_true ⟨[], .nil⟩ nofun
  | cons v items ih =>
    simp only [List.forall₂_cons_left_iff, List.forall_mem_cons, ← ih]
    constructor
    · rintro ⟨_, x, l, hx, hl, -⟩
      exact ⟨⟨x, hx⟩, l, hl⟩
    · rintro ⟨⟨x, hx⟩, l, hl⟩
      exact ⟨_, x, l, hx, hl, rfl⟩

theorem list?_eq_some_iff {l : List β} : n.list? read v = some l ↔
    ∃ items, n.items? v = some items ∧ List.Forall₂ (fun v x => read v = some x) items l := by
  simp only [list?, Option.bind_eq_some_iff, mapM_eq_some_iff]

theorem dictionary?_eq_some_iff {d : Dictionary} : n.dictionary? v = some d ↔
    ∃ members, n.entries? v = some members ∧ ∃ entries,
      List.Forall₂ (fun m e => (n.text? m.2).map (fun value => (m.1, value)) = some e)
        members entries ∧ Dictionary.ofList entries = d := by
  simp only [dictionary?, Option.bind_eq_bind, Option.bind_eq_some_iff, mapM_eq_some_iff,
    Option.pure_def, Option.some.injEq]

theorem withDefault_eq_some_iff {value x : β} {o : Option α} :
    withDefault value read o = some x ↔ (o = none ∧ value = x) ∨ ∃ v, o = some v ∧ read v = some x := by
  cases o with
  | none => simp [withDefault]
  | some v => simp [withDefault]

end Values

theorem IgnoreRule.read?_eq_some_iff {r : IgnoreRule} : read? n v = some r ↔
    ∃ get, n.record? fields v = some get ∧
      withDefault "" n.text? (get "goos") = some r.os ∧
      withDefault "" n.textOrInteger? (get "goarch") = some r.arch ∧
      withDefault none n.optionalTextOrInteger? (get "goarm") = some r.revision := by
  simp only [read?, Option.bind_eq_bind, Option.bind_eq_some_iff, Option.pure_def,
    Option.some.injEq]
  constructor
  · rintro ⟨get, hget, _, hos, _, harch, _, hrevision, rfl⟩
    exact ⟨get, hget, hos, harch, hrevision⟩
  · rintro ⟨get, hget, hos, harch, hrevision⟩
    exact ⟨get, hget, _, hos, _, harch, _, hrevision, rfl⟩

theorem Build.read?_eq_some_iff {b : Build} : read? n v = some b ↔
    ∃ get, n.record? fields v = some get ∧
      withDefault "" n.text? (get "binary") = some b.binary ∧
      withDefault [] (n.list? n.text?) (get "goos") = some b.systems ∧
      withDefault [] (n.list? n.textOrInteger?) (get "goarch") = some b.archs ∧
      withDefault [] (n.list? n.textOrInteger?) (get "goarm") = some b.revisions ∧
      withDefault [] (n.list? (IgnoreRule.read? n)) (get "ignore") = some b.ignored := by
  simp only [read?, Option.bind_eq_bind, Option.bind_eq_some_iff, Option.pure_def,
    Option.some.injEq]
  constructor
  · rintro ⟨get, hget, _, hbinary, _, hsystems, _, harchs, _, hrevisions, _, hignored, rfl⟩
    exact ⟨get, hget, hbinary, hsystems, harchs, hrevisions, hignored⟩
  · rintro ⟨get, hget, hbinary, hsystems, harchs, hrevisions, hignored⟩
    exact ⟨get, hget, _, hbinary, _, hsystems, _, harchs, _, hrevisions, _, hignored, rfl⟩

theorem FormatOverride.read?_eq_some_iff {o : FormatOverride} : read? n v = some o ↔
    ∃ get, n.record? fields v = some get ∧
      (get "goos").bind n.text? = some o.os ∧ (get "format").bind n.text? = some o.format := by
  simp only [read?, Option.bind_eq_bind, Option.bind_eq_some_iff, Option.pure_def,
    Option.some.injEq]
  constructor
  · rintro ⟨get, hget, s, hs, _, hos, f, hf, _, hformat, rfl⟩
    exact ⟨get, hget, ⟨s, hs, hos⟩, f, hf, hformat⟩
  · rintro ⟨get, hget, ⟨s, hs, hos⟩, f, hf, hformat⟩
    exact ⟨get, hget, s, hs, _, hos, f, hf, _, hformat, rfl⟩

namespace Project

theorem readRepo?_eq_some_iff {r : Repo} : readRepo? n v = some r ↔
    ∃ get, n.record? repoFields v = some get ∧
      withDefault "" n.text? (get "owner") = some r.owner ∧
      withDefault "" n.text? (get "name") = some r.name := by
  simp only [readRepo?, Option.bind_eq_bind, Option.bind_eq_some_iff, Option.pure_def,
    Option.some.injEq]
  constructor
  · rintro ⟨get, hget, _, howner, _, hname, rfl⟩
    exact ⟨get, hget, howner, hname⟩
  · rintro ⟨get, hget, howner, hname⟩
    exact ⟨get, hget, _, howner, _, hname, rfl⟩

theorem readRelease?_eq_some_iff {r : Repo} : readRelease? n v = some r ↔
    ∃ get, n.record? releaseFields v = some get ∧
      withDefault ⟨"", ""⟩ (readRepo? n) (get "github") = some r :=
  Option.bind_eq_some_iff

theorem readArchive?_eq_some_iff {a : Archive} : readArchive? n v = some a ↔
    ∃ get, n.record? archiveFields v = some get ∧
      withDefault none n.optionalText? (get "name_template") = some a.nameTemplate ∧
      withDefault none n.optionalText? (get "format") = some a.format ∧
      withDefault [] (n.list? (FormatOverride.read? n)) (get "format_overrides") =
        some a.formatOverrides ∧
      withDefault ∅ n.dictionary? (get "replacements") = some a.replacements ∧
      withDefault false n.truth? (get "wrap_in_directory") = some a.wrapInDirectory := by
  simp only [readArchive?, Option.bind_eq_bind, Option.bind_eq_some_iff, Option.pure_def,
    Option.some.injEq]
  constructor
  · rintro ⟨get, hget, _, htemplate, _, hformat, _, hoverrides, _, hreplacements, _, hwrap, rfl⟩
    exact ⟨get, hget, htemplate, hformat, hoverrides, hreplacements, hwrap⟩
  · rintro ⟨get, hget, htemplate, hformat, hoverrides, hreplacements, hwrap⟩
    exact ⟨get, hget, _, htemplate, _, hformat, _, hoverrides, _, hreplacements, _, hwrap, rfl⟩

theorem readChecksum?_eq_some_iff {t : Option String} : readChecksum? n v = some t ↔
    ∃ get, n.record? checksumFields v = some get ∧
      withDefault none n.optionalText? (get "name_template") = some t :=
  Option.bind_eq_some_iff

theorem read?_eq_some_iff {p : Project} : read? n v = some p ↔
    ∃ get, n.record? fields v = some get ∧
      withDefault none n.optionalText? (get "project_name") = some p.name ∧
      withDefault ⟨"", ""⟩ (readRelease? n) (get "release") = some p.repo ∧
      withDefault [] (n.list? (Build.read? n)) (get "builds") = some p.builds ∧
      withDefault default (readArchive? n) (get "archive") = some p.archive ∧
      withDefault none (readChecksum? n) (get "checksum") = some p.checksumTemplate := by
  simp only [read?, Option.bind_eq_bind, Option.bind_eq_some_iff, Option.pure_def,
    Option.some.injEq]
  constructor
  · rintro ⟨get, hget, _, hname, _, hrepo, _, hbuilds, _, harchive, _, hchecksum, rfl⟩
    exact ⟨get, hget, hname, hrepo, hbuilds, harchive, hchecksum⟩
  · rintro ⟨get, hget, hname, hrepo, hbuilds, harchive, hchecksum⟩
    exact ⟨get, hget, _, hname, _, hrepo, _, hbuilds, _, harchive, _, hchecksum, rfl⟩

end Project

end ReleaseInstaller
