import ReleaseInstaller.Proofs.Release.Defaults

/-! Where a release gets its repository from: its description, or a repository from outside. -/
namespace ReleaseInstaller

/-- A repository with both its parts. -/
structure Repo.IsNamed (r : Repo) : Prop where
  owner : r.owner ≠ ""
  name : r.name ≠ ""

instance (r : Repo) : Decidable r.IsNamed :=
  decidable_of_iff (r.owner ≠ "" ∧ r.name ≠ "")
    ⟨fun ⟨howner, hname⟩ => ⟨howner, hname⟩, fun h => ⟨h.owner, h.name⟩⟩

theorem Repo.isNamed_of_ofPath? {path : List Char} {pair : Repo} (h : ofPath? path = some pair) :
    pair.IsNamed := by
  simp only [ofPath?, Option.bind_eq_bind, Option.bind_eq_some_iff, Option.guard_eq_some',
    Option.pure_def, Option.some.injEq, Bool.and_eq_true, Bool.not_eq_true',
    List.isEmpty_eq_false_iff] at h
  obtain ⟨⟨owner, name⟩, -, -, ⟨⟨howner, hname⟩, -⟩, rfl⟩ := h
  exact ⟨fun hempty => howner (String.ofList_eq_empty_iff.mp hempty),
    fun hempty => hname (String.ofList_eq_empty_iff.mp hempty)⟩

/-- Nothing is read as a repository that lacks one of its parts. -/
theorem Repo.isNamed_of_parse? {text : String} {pair : Repo} (h : parse? text = some pair) :
    pair.IsNamed := by
  obtain ⟨path, -, hpath⟩ := Option.bind_eq_some_iff.mp h
  exact isNamed_of_ofPath? hpath

namespace Release

variable {p : Project} {given : Option Repo} {described pair : Repo}

/-- A description counts as soon as it has an owner, even if it has no name. -/
theorem repoOf?_given (h : pair.IsNamed) : repoOf? described (some pair) =
    if described.owner = "" then some pair
    else if described.name = "" then none else some described := by
  by_cases howner : described.owner = ""
  · rw [if_pos howner, repoOf?_eq_some_iff, if_pos (String.isEmpty_iff.mpr howner)]
    exact ⟨rfl, h.owner, h.name⟩
  · have hsome : described.owner.isEmpty ≠ true := fun hempty => howner (String.isEmpty_iff.mp hempty)
    rw [if_neg howner]
    by_cases hname : described.name = ""
    · rw [if_pos hname, Option.eq_none_iff_forall_ne_some]
      intro repo hrepo
      rw [repoOf?_eq_some_iff, if_neg hsome] at hrepo
      obtain ⟨hdescribed, -, hname'⟩ := hrepo
      obtain rfl := Option.some.inj hdescribed
      exact hname' hname
    · rw [if_neg hname, repoOf?_eq_some_iff, if_neg hsome]
      exact ⟨rfl, howner, hname⟩

/-- A repository is missing only if none is found, whatever else is wrong with the project. -/
theorem ofProject_eq_noRepo_iff :
    ofProject p given = .error .noRepo ↔ repoOf? p.repo given = none := by
  constructor
  · intro h
    cases hrepo : repoOf? p.repo given with
    | none => rfl
    | some repo =>
      have hrefuses : RefusesWith Fault.IsFounded (ofProject p given) := by
        rw [ofProject, hrepo]
        exact (validate_refuses _).bind fun _ => refusesWith_pure _
      exact (hrefuses .noRepo h).elim
  · intro hrepo
    rw [ofProject, hrepo]
    rfl

/-- A repository that was read from a text is taken where the description has no owner. A description
with an owner is not completed from it: if it has no name, the repository counts as missing. -/
theorem ofProject_given {text : String} (h : Repo.parse? text = some pair) (p : Project) :
    (ofProject p (some pair) = .error .noRepo ↔ p.repo.owner ≠ "" ∧ p.repo.name = "") ∧
      ∀ r, ofProject p (some pair) = .ok r → r.repo.IsNamed ∧
        r.repo = if p.repo.IsNamed then p.repo else pair := by
  have hrepoOf : repoOf? p.repo (some pair) = _ := repoOf?_given (Repo.isNamed_of_parse? h)
  constructor
  · rw [ofProject_eq_noRepo_iff, hrepoOf]
    by_cases howner : p.repo.owner = ""
    · simp [howner]
    · by_cases hname : p.repo.name = "" <;> simp [howner, hname]
  · intro r hr
    obtain ⟨repo, hrepo, -, rfl⟩ := ofProject_eq_ok_iff.mp hr
    obtain ⟨-, howner, hname⟩ := repoOf?_eq_some_iff.mp hrepo
    refine ⟨⟨howner, hname⟩, ?_⟩
    change repo = _
    rw [hrepoOf] at hrepo
    split at hrepo
    · rename_i hsilent
      rw [if_neg fun hnamed => hnamed.owner hsilent]
      exact (Option.some.inj hrepo).symm
    · split at hrepo
      · cases hrepo
      · rename_i howner' hname'
        rw [if_pos ⟨howner', hname'⟩]
        exact (Option.some.inj hrepo).symm

/-- A name without an owner does not count. -/
theorem ofProject_given_name_only :
    Repo.parse? " git@github.com:foo/bar.git" = some ⟨"foo", "bar"⟩ ∧
      ∃ r, ofProject { (default : Project) with repo := ⟨"", "tool"⟩ } (some ⟨"foo", "bar"⟩) = .ok r ∧
        r.repo = ⟨"foo", "bar"⟩ := by
  have hparse : Repo.parse? " git@github.com:foo/bar.git" = some ⟨"foo", "bar"⟩ := by decide +kernel
  obtain ⟨-, hrepo⟩ := ofProject_given hparse { (default : Project) with repo := ⟨"", "tool"⟩ }
  have hvalid : (withDefaults default ⟨"foo", "bar"⟩).validate = .ok () :=
    validate_eq_ok_iff.mpr (isValid_withDefaults_default (by decide) (by decide))
  have hr : ofProject { (default : Project) with repo := ⟨"", "tool"⟩ } (some ⟨"foo", "bar"⟩) =
      .ok (withDefaults default ⟨"foo", "bar"⟩) :=
    ofProject_eq_ok_iff.mpr ⟨⟨"foo", "bar"⟩, rfl, hvalid, rfl⟩
  exact ⟨hparse, _, hr, (hrepo _ hr).2⟩

/-- An owner without a name is refused, although a whole repository is given. -/
theorem owner_without_name_is_refused :
    Repo.parse? "foo/bar" = some ⟨"foo", "bar"⟩ ∧
      ofProject { (default : Project) with repo := ⟨"o", ""⟩ } (some ⟨"foo", "bar"⟩) =
        .error .noRepo := by
  have hparse : Repo.parse? "foo/bar" = some ⟨"foo", "bar"⟩ := by decide +kernel
  exact ⟨hparse, ofProject_eq_noRepo_iff.mpr rfl⟩

end Release

end ReleaseInstaller
