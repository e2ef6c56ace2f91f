import Mathlib.Data.List.Basic
import ReleaseInstaller.Proofs.Platform.Exclusion

/-! The matrix of a build, place by place: which platforms it lists, in which order, and that order
and repetitions in the build do not count when a platform is looked up. -/
namespace ReleaseInstaller

section Listing
variable {α ι : Type} [LT ι] {standsAt : ι → Option α} {entries : List (α × ι)}

/-- The list holds what stands at the places, each thing once, in the order of the places where they
stand first. -/
structure IsListing (standsAt : ι → Option α) (l : List α) : Prop where
  nodup : l.Nodup
  mem_iff : ∀ x, x ∈ l ↔ ∃ place, standsAt place = some x
  ordered : l.Pairwise fun x y =>
    ∃ place, standsAt place = some x ∧ ∀ other, standsAt other = some y → place < other

/-- All that stands at the places, with its place, in the order of the places. -/
structure AreEntries (standsAt : ι → Option α) (entries : List (α × ι)) : Prop where
  mem_iff : ∀ e, e ∈ entries ↔ standsAt e.2 = some e.1
  ordered : entries.Pairwise fun e e' => e.2 < e'.2

/-- Of two things that are left without repetitions, the second one is not to be found before the
first one. -/
theorem pairwise_eraseDups [BEq α] [LawfulBEq α] (l : List α) : l.eraseDups.Pairwise fun x y =>
    x ≠ y ∧ ∃ before after, l = before ++ x :: after ∧ y ∉ before := by
  cases l with
  | nil => simp
  | cons a l =>
    have ih := pairwise_eraseDups (l.filter fun b => !b == a)
    have hrest : ∀ y ∈ (l.filter fun b => !b == a).eraseDups, y ≠ a := by
      intro y hy
      have hfilter := List.mem_filter.mp (List.mem_eraseDups.mp hy)
      simpa using hfilter.2
    rw [List.eraseDups_cons, List.pairwise_cons]
    constructor
    · intro y hy
      exact ⟨(hrest y hy).symm, [], l, rfl, List.not_mem_nil⟩
    · refine ih.imp_of_mem ?_
      rintro x y - hy ⟨hne, before, after, heq, hnot⟩
      obtain ⟨lead, tail, rfl, hlead, htail⟩ := List.filter_eq_append_iff.mp heq
      obtain ⟨skipped, last, rfl, hskipped, -, -⟩ := List.filter_eq_cons_iff.mp htail
      refine ⟨hne, a :: (lead ++ skipped), last, by simp, ?_⟩
      -- What the filter lets through of the text before `x` is what stood there before.
      have hkept : (!y == a) = true := by simpa using hrest y hy
      rw [List.mem_cons, List.mem_append, not_or, not_or]
      refine ⟨hrest y hy, fun hm => hnot ?_, fun hm => hskipped y hm hkept⟩
      exact hlead ▸ List.mem_filter.mpr ⟨hm, hkept⟩
termination_by l.length
decreasing_by
  have hle := List.length_filter_le (fun b => !b == a) l
  simp only [List.length_cons]
  omega

/-- There is one listing only. -/
theorem IsListing.unique [Std.Asymm (α := ι) (· < ·)] {l l' : List α} (h : IsListing standsAt l)
    (h' : IsListing standsAt l') : l = l' := by
  have hsame : ∀ x, x ∈ l ↔ x ∈ l' := fun x => (h.mem_iff x).trans (h'.mem_iff x).symm
  have hperm := (List.perm_ext_iff_of_nodup h.nodup h'.nodup).mpr hsame
  refine hperm.eq_of_pairwise ?_ h.ordered h'.ordered
  rintro x y - - ⟨place, hx, hfirst⟩ ⟨other, hy, hother⟩
  exact absurd (hother place hx) (Std.Asymm.asymm _ _ (hfirst other hy))

/-- Entries without repetitions are a listing. -/
theorem AreEntries.isListing [BEq α] [LawfulBEq α] (h : AreEntries standsAt entries) :
    IsListing standsAt (entries.map Prod.fst).eraseDups where
  nodup := (pairwise_eraseDups _).imp fun hxy => hxy.1
  mem_iff := by
    intro x
    rw [List.mem_eraseDups, List.mem_map]
    constructor
    · rintro ⟨e, he, rfl⟩
      exact ⟨e.2, (h.mem_iff e).mp he⟩
    · rintro ⟨place, hplace⟩
      exact ⟨(x, place), (h.mem_iff (x, place)).mpr hplace, rfl⟩
  ordered := by
    refine (pairwise_eraseDups _).imp ?_
    rintro x y ⟨hne, before, after, heq, hnot⟩
    obtain ⟨earlier, rest, rfl, rfl, hrest⟩ := List.map_eq_append_iff.mp heq
    obtain ⟨e, later, rfl, rfl, -⟩ := List.map_eq_cons_iff.mp hrest
    refine ⟨e.2, (h.mem_iff e).mp (by simp), fun other hother => ?_⟩
    have hmem := (h.mem_iff (y, other)).mpr hother
    have hbehind := (List.pairwise_cons.mp (List.pairwise_append.mp h.ordered).2.1).1
    rcases List.mem_append.mp hmem with hm | hm
    · exact absurd (List.mem_map_of_mem hm) hnot
    · rcases List.mem_cons.mp hm with rfl | hm
      · exact absurd rfl hne
      · exact hbehind _ hm

end Listing

theorem pairwise_zipIdx {α : Type} (l : List α) : l.zipIdx.Pairwise fun e e' => e.2 < e'.2 := by
  have hplaces : (l.zipIdx.map Prod.snd).Pairwise (· < ·) := by
    rw [List.zipIdx_map_snd]
    exact List.pairwise_lt_range'
  exact List.pairwise_map.mp hplaces

theorem areEntries_zipIdx {α : Type} (l : List α) : AreEntries (fun i : Nat => l[i]?) l.zipIdx where
  mem_iff _ := List.mem_zipIdx_iff_getElem?
  ordered := pairwise_zipIdx l

/-- Where a build names a platform: the numbers of the system, of the architecture and, among those
of the architecture, of the revision. -/
structure Place where
  system : Nat
  arch : Nat
  revision : Nat

namespace Place

/-- The system counts first, then the architecture. -/
def IsBefore (p q : Place) : Prop :=
  p.system < q.system ∨ p.system = q.system ∧
    (p.arch < q.arch ∨ p.arch = q.arch ∧ p.revision < q.revision)

instance : LT Place := ⟨IsBefore⟩

instance : Std.Asymm (α := Place) (· < ·) where
  asymm p q := by
    change p.IsBefore q → ¬ q.IsBefore p
    unfold IsBefore
    omega

end Place

/-- What a rule names: its architecture with the revision behind it, if it has one. -/
def IgnoreRule.named (rule : IgnoreRule) : Platform :=
  ⟨rule.os, rule.arch ++ (rule.revision.map ("v" ++ ·)).getD ""⟩

theorem IgnoreRule.platform_eq_named (rule : IgnoreRule) : rule.platform = rule.named := by
  unfold platform named
  cases rule.revision with
  | none => simp
  | some revision => simp [Platform.ofRevision, String.append_assoc]

namespace Build

variable {b b' : Build} {platform : String}

/-- What the build is made for with its system, architecture and revision of these numbers. Without
revisions of its own an architecture stands where its first one would. -/
def platformAt? (b : Build) (place : Place) : Option Platform := do
  let system ← b.systems[place.system]?
  let arch ← b.archs[place.arch]?
  if arch = "arm" ∧ b.revisions ≠ [] then
    b.revisions[place.revision]?.map fun revision => ⟨system, "armv" ++ revision⟩
  else if place.revision = 0 then some ⟨system, arch⟩ else none

/-- The platforms of the build with their places. -/
def entries (b : Build) : List (Platform × Place) :=
  b.systems.zipIdx.flatMap fun system => b.archs.zipIdx.flatMap fun arch =>
    (Platform.expand b.revisions system.1 arch.1).zipIdx.map fun p => (p.1, ⟨system.2, arch.2, p.2⟩)

theorem getElem?_expand (revisions : List String) (system arch : String) (k : Nat) :
    (Platform.expand revisions system arch)[k]? =
      if arch = "arm" ∧ revisions ≠ [] then
        revisions[k]?.map fun revision => ⟨system, "armv" ++ revision⟩
      else if k = 0 then some ⟨system, arch⟩ else none := by
  unfold Platform.expand
  split
  · rename_i harm
    obtain ⟨rfl, -⟩ := harm
    rw [List.getElem?_map]
    rfl
  · rw [List.getElem?_singleton]

theorem platformAt?_eq_some_iff {place : Place} {p : Platform} : b.platformAt? place = some p ↔
    ∃ system arch, b.systems[place.system]? = some system ∧ b.archs[place.arch]? = some arch ∧
      (Platform.expand b.revisions system arch)[place.revision]? = some p := by
  simp only [platformAt?, Option.bind_eq_bind, Option.bind_eq_some_iff, ← getElem?_expand,
    exists_and_left]

theorem mem_entries_iff {e : Platform × Place} : e ∈ b.entries ↔ b.platformAt? e.2 = some e.1 := by
  obtain ⟨p, i, j, k⟩ := e
  rw [platformAt?_eq_some_iff]
  simp only [entries, List.mem_flatMap, List.mem_map, List.mem_zipIdx_iff_getElem?, Prod.exists,
    Prod.mk.injEq, Place.mk.injEq]
  constructor
  · rintro ⟨system, _, hsystem, arch, _, harch, _, _, hp, rfl, rfl, rfl, rfl⟩
    exact ⟨system, arch, hsystem, harch, hp⟩
  · rintro ⟨system, arch, hsystem, harch, hp⟩
    exact ⟨system, i, hsystem, arch, j, harch, p, k, hp, rfl, rfl, rfl, rfl⟩

theorem pairwise_entries (b : Build) : b.entries.Pairwise fun e e' => e.2 < e'.2 := by
  unfold entries
  rw [List.pairwise_flatMap]
  constructor
  · intro system _
    rw [List.pairwise_flatMap]
    constructor
    · intro arch _
      refine List.pairwise_map.mpr ((pairwise_zipIdx _).imp ?_)
      intro p q hlt
      exact .inr ⟨rfl, .inr ⟨rfl, hlt⟩⟩
    · refine (pairwise_zipIdx _).imp ?_
      intro arch arch' hlt e he e' he'
      obtain ⟨p, -, rfl⟩ := List.mem_map.mp he
      obtain ⟨p', -, rfl⟩ := List.mem_map.mp he'
      exact .inr ⟨rfl, .inl hlt⟩
  · refine (pairwise_zipIdx _).imp ?_
    intro system system' hlt e he e' he'
    obtain ⟨arch, -, he⟩ := List.mem_flatMap.mp he
    obtain ⟨arch', -, he'⟩ := List.mem_flatMap.mp he'
    obtain ⟨p, -, rfl⟩ := List.mem_map.mp he
    obtain ⟨p', -, rfl⟩ := List.mem_map.mp he'
    exact .inl hlt

theorem areEntries_entries (b : Build) : AreEntries b.platformAt? b.entries where
  mem_iff _ := mem_entries_iff
  ordered := pairwise_entries b

/-- Without their places, the entries are what the matrix is made from. -/
theorem map_entries (b : Build) : b.entries.map Prod.fst =
    b.systems.flatMap fun system => b.archs.flatMap fun arch =>
      Platform.expand b.revisions system arch := by
  have hfst : ∀ (l : List String) (f : String → List Platform),
      (l.zipIdx.flatMap fun e => f e.1) = l.flatMap f := by
    intro l f
    rw [← List.flatMap_map, List.zipIdx_map_fst]
  simp only [entries, List.map_flatMap, List.map_map]
  rw [← hfst]
  refine List.flatMap_congr fun system _ => ?_
  rw [← hfst]
  refine List.flatMap_congr fun arch _ => ?_
  exact List.zipIdx_map_fst 0 _

theorem isListing_supported (b : Build) :
    IsListing b.platformAt? (PlatformMatrix.ofBuild b).supported := by
  have h := (areEntries_entries b).isListing
  rwa [map_entries] at h

theorem isListing_excluded (b : Build) : IsListing (fun i : Nat => b.ignored[i]?.map IgnoreRule.named)
    (PlatformMatrix.ofBuild b).excluded := by
  have h := (areEntries_zipIdx (b.ignored.map IgnoreRule.named)).isListing
  have hnamed : b.ignored.map IgnoreRule.platform = b.ignored.map IgnoreRule.named :=
    List.map_congr_left fun rule _ => rule.platform_eq_named
  simp only [List.zipIdx_map_fst, List.getElem?_map] at h
  rwa [← hnamed] at h

theorem arch_ne_arm (hrevisions : b.revisions ≠ []) :
    ∀ p ∈ (PlatformMatrix.ofBuild b).supported, p.arch ≠ "arm" := by
  intro p hp
  obtain ⟨place, hplace⟩ := ((isListing_supported b).mem_iff p).mp hp
  obtain ⟨system, arch, -, -, hexpand⟩ := platformAt?_eq_some_iff.mp hplace
  rw [getElem?_expand] at hexpand
  split at hexpand
  · obtain ⟨revision, -, rfl⟩ := Option.map_eq_some_iff.mp hexpand
    intro h
    have hlength := congrArg (fun text : String => text.toList.length) h
    simp at hlength
  · rename_i harm
    split at hexpand
    · obtain rfl := Option.some.inj hexpand
      exact fun h => harm ⟨h, hrevisions⟩
    · cases hexpand

/-- The builds are made of the same items, in whatever order and however often. -/
structure HasSameItems (b b' : Build) : Prop where
  systems : ∀ system, system ∈ b.systems ↔ system ∈ b'.systems
  archs : ∀ arch, arch ∈ b.archs ↔ arch ∈ b'.archs
  revisions : ∀ revision, revision ∈ b.revisions ↔ revision ∈ b'.revisions
  ignored : ∀ rule, rule ∈ b.ignored ↔ rule ∈ b'.ignored

theorem mem_expand_congr {revisions revisions' : List String}
    (h : ∀ revision, revision ∈ revisions ↔ revision ∈ revisions') {system arch : String}
    {p : Platform} :
    p ∈ Platform.expand revisions system arch ↔ p ∈ Platform.expand revisions' system arch := by
  have hnil : revisions ≠ [] ↔ revisions' ≠ [] := by
    simp only [ne_eq, List.eq_nil_iff_forall_not_mem, h]
  unfold Platform.expand
  by_cases hsplit : arch = "arm" ∧ revisions ≠ []
  · have hsplit' : arch = "arm" ∧ revisions' ≠ [] := ⟨hsplit.1, hnil.mp hsplit.2⟩
    simp only [if_pos hsplit, if_pos hsplit', List.mem_map, h]
  · have hsplit' : ¬ (arch = "arm" ∧ revisions' ≠ []) := fun h => hsplit ⟨h.1, hnil.mpr h.2⟩
    rw [if_neg hsplit, if_neg hsplit']

theorem HasSameItems.isSupported_eq (h : b.HasSameItems b') (platform : String) :
    (PlatformMatrix.ofBuild b).isSupported platform =
      (PlatformMatrix.ofBuild b').isSupported platform := by
  rw [Bool.eq_iff_iff, isSupported_ofBuild_iff, isSupported_ofBuild_iff]
  simp only [Lists, Ignores, h.systems, h.archs, h.ignored, mem_expand_congr h.revisions]

/-- More rules can only take platforms out. -/
theorem isSupported_of_more_rules {rules : List IgnoreRule} (h : b.ignored ⊆ rules)
    (hsupported : (PlatformMatrix.ofBuild { b with ignored := rules }).isSupported platform = true) :
    (PlatformMatrix.ofBuild b).isSupported platform = true := by
  obtain ⟨hlists, hignores⟩ := isSupported_ofBuild_iff.mp hsupported
  refine isSupported_ofBuild_iff.mpr ⟨hlists, ?_⟩
  rintro ⟨rule, hrule, hdisplay⟩
  exact hignores ⟨rule, h hrule, hdisplay⟩

/-- The matrix lists the platforms of the build and those of its rules, each once and in the order of
the build. A platform is supported exactly if it is spelled like one of the first list and like none
of the second. Rules only take platforms out, and neither order nor repetitions matter to that. -/
theorem matrix_exact (b : Build) :
    (∀ l, IsListing b.platformAt? l ↔ l = (PlatformMatrix.ofBuild b).supported) ∧
    (∀ l, IsListing (fun i : Nat => b.ignored[i]?.map IgnoreRule.named) l ↔
      l = (PlatformMatrix.ofBuild b).excluded) ∧
    (b.revisions ≠ [] → ∀ p ∈ (PlatformMatrix.ofBuild b).supported, p.arch ≠ "arm") ∧
    (∀ platform, (PlatformMatrix.ofBuild b).isSupported platform = true ↔
      (∃ p ∈ (PlatformMatrix.ofBuild b).supported, p.os ++ "/" ++ p.arch = platform) ∧
        ∀ p ∈ (PlatformMatrix.ofBuild b).excluded, p.os ++ "/" ++ p.arch ≠ platform) ∧
    (∀ rules, b.ignored ⊆ rules → ∀ platform,
      (PlatformMatrix.ofBuild { b with ignored := rules }).isSupported platform = true →
        (PlatformMatrix.ofBuild b).isSupported platform = true) ∧
    ∀ b', b.HasSameItems b' → ∀ platform, (PlatformMatrix.ofBuild b).isSupported platform =
      (PlatformMatrix.ofBuild b').isSupported platform := by
  refine ⟨fun l => ⟨fun h => ?_, ?_⟩, fun l => ⟨fun h => ?_, ?_⟩, arch_ne_arm, fun platform => ?_,
    fun _ h _ => isSupported_of_more_rules h, fun _ h => h.isSupported_eq⟩
  · exact h.unique (isListing_supported b)
  · rintro rfl
    exact isListing_supported b
  · exact h.unique (isListing_excluded b)
  · rintro rfl
    exact isListing_excluded b
  · rw [isSupported_iff]
    simp only [List.mem_map, Platform.display, not_exists, not_and]

/-- Two places name `armv6`, and the first one counts. -/
example : (PlatformMatrix.ofBuild
    ⟨"bar", ["linux"], ["arm", "amd64", "armv6", "arm"], ["6", "7"], []⟩).supported =
      [⟨"linux", "armv6"⟩, ⟨"linux", "armv7"⟩, ⟨"linux", "amd64"⟩] := by
  decide

end Build

end ReleaseInstaller
