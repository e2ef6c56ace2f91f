import Mathlib.Logic.Function.Basic
import ReleaseInstaller.Proofs.Json.Member
import ReleaseInstaller.Proofs.Json.Place

/-! Changes in parts of documents, and what records make of them. -/
namespace ReleaseInstaller.Json

/-- One part of a document is changed, at the given place and in the given way. -/
inductive ChangedAt (R : Json → Json → Prop) : List Step → Json → Json → Prop where
  | here {v v' : Json} (h : R v v') : ChangedAt R [] v v'
  | member {key : String} {place : List Step} {v v' : Json} (before after : List (String × Json))
      (h : ChangedAt R place v v') :
      ChangedAt R (.member key :: place) (object (before ++ (key, v) :: after))
        (object (before ++ (key, v') :: after))
  | item {place : List Step} {v v' : Json} (before after : List Json) (h : ChangedAt R place v v') :
      ChangedAt R (.item :: place) (array (before ++ v :: after)) (array (before ++ v' :: after))

theorem ChangedAt.mono {R S : Json → Json → Prop} (hRS : ∀ v v', R v v' → S v v')
    {place : List Step} {v v' : Json} (h : ChangedAt R place v v') : ChangedAt S place v v' := by
  induction h with
  | here h => exact .here (hRS _ _ h)
  | member before after _ ih => exact .member before after ih
  | item before after _ ih => exact .item before after ih

theorem ChangedAt.symm {R : Json → Json → Prop} (hR : ∀ {v v'}, R v v' → R v' v)
    {place : List Step} {v v' : Json} (h : ChangedAt R place v v') : ChangedAt R place v' v := by
  induction h with
  | here h => exact .here (hR h)
  | member before after _ ih => exact .member before after ih
  | item before after _ ih => exact .item before after ih

/-- An object gets further members, none of them under the name of a field, and its members come in
any order. -/
def IsExtended (fields : List String) (v v' : Json) : Prop :=
  ∃ members extra members', v = object members ∧ v' = object members' ∧
    members'.Perm (members ++ extra) ∧ ∀ m ∈ extra, m.1 ∉ fields

/-- An object says `null` under a key that it does not have otherwise, and then leaves the key out. -/
def Omits (key : String) (v v' : Json) : Prop :=
  ∃ before after, v = object (before ++ (key, null) :: after) ∧ v' = object (before ++ after) ∧
    ∀ m ∈ before ++ after, m.1 ≠ key

variable {fields : List String} {key : String} {v v' : Json} {get : String → Option Json}

/-- An extended record gives the same to its fields. -/
theorem record?_of_isExtended (h : IsExtended fields v v') (hget : record? fields v = some get) :
    ∃ get', record? fields v' = some get' ∧ ∀ field ∈ fields, get' field = get field := by
  obtain ⟨members, extra, members', rfl, rfl, hperm, hextra⟩ := h
  obtain ⟨hnodup, rfl⟩ := record?_object_eq_some_iff.mp hget
  have hunknown : extra.filter (fun m => fields.contains m.1) = [] :=
    List.filter_eq_nil_iff.mpr fun m hm hknown => hextra m hm (List.contains_iff_mem.mp hknown)
  have hkeys : (knownKeys fields members').Perm (knownKeys fields members) := by
    have hfilter := hperm.filter fun m => fields.contains m.1
    rw [List.filter_append, hunknown, List.append_nil] at hfilter
    exact hfilter.map Prod.fst
  have hnodup' := hkeys.nodup_iff.mpr hnodup
  refine ⟨_, record?_object_eq_some_iff.mpr ⟨hnodup', rfl⟩, fun field hfield => ?_⟩
  refine Option.ext fun w => ?_
  rw [lookup_eq_some_iff_mem_of_known hnodup' hfield, lookup_eq_some_iff_mem_of_known hnodup hfield,
    hperm.mem_iff, List.mem_append]
  exact or_iff_left fun hw => hextra _ hw hfield

/-- A record of which one value is changed gives the same to all other fields. -/
theorem record?_of_changedAt_member {R : Json → Json → Prop} {place : List Step}
    (h : ChangedAt R (.member key :: place) v v') (hget : record? fields v = some get) :
    ∃ get', record? fields v' = some get' ∧ ∀ field ∈ fields, get' field = get field ∨
      field = key ∧ ∃ w w', get field = some w ∧ get' field = some w' ∧ ChangedAt R place w w' := by
  cases h with
  | member before after hchange =>
    rename_i w w'
    obtain ⟨hnodup, rfl⟩ := record?_object_eq_some_iff.mp hget
    have hnodup' : (knownKeys fields (before ++ (key, w') :: after)).Nodup := by
      have hsame : knownKeys fields (before ++ (key, w') :: after) =
          knownKeys fields (before ++ (key, w) :: after) := by
        by_cases hkey : key ∈ fields <;> simp [knownKeys, hkey]
      rwa [hsame]
    refine ⟨_, record?_object_eq_some_iff.mpr ⟨hnodup', rfl⟩, fun field hfield => ?_⟩
    by_cases hkey : field = key
    · -- A field is not there twice, so that it gets the value that is changed.
      subst hkey
      refine .inr ⟨rfl, w, w', ?_, ?_, hchange⟩
      · exact (lookup_eq_some_iff_mem_of_known hnodup hfield).mpr (by simp)
      · exact (lookup_eq_some_iff_mem_of_known hnodup' hfield).mpr (by simp)
    · refine .inl (Option.ext fun u => ?_)
      rw [lookup_eq_some_iff_mem_of_known hnodup' hfield,
        lookup_eq_some_iff_mem_of_known hnodup hfield]
      simp [hkey]

theorem lookup_of_omitted {before after : List (String × Json)}
    (hkey : ∀ m ∈ before ++ after, m.1 ≠ key) :
    (fun field => (before ++ (key, null) :: after).lookup field) =
      Function.update (fun field => (before ++ after).lookup field) key (some null) := by
  funext field
  by_cases hfield : field = key
  · have hbefore : before.lookup key = none :=
      List.lookup_eq_none_iff.mpr fun m hm => by
        simpa using (hkey m (List.mem_append_left _ hm)).symm
    simp [hfield, List.lookup_append, hbefore]
  · simp [hfield, List.lookup_append, List.lookup_cons, beq_eq_false_iff_ne.mpr hfield]

theorem nodup_knownKeys_of_omitted {before after : List (String × Json)}
    (hkey : ∀ m ∈ before ++ after, m.1 ≠ key) :
    (knownKeys fields (before ++ (key, null) :: after)).Nodup ↔
      (knownKeys fields (before ++ after)).Nodup := by
  have hperm : (before ++ (key, null) :: after).Perm ((key, null) :: (before ++ after)) :=
    List.perm_middle
  have hkeys := (hperm.filter fun m => fields.contains m.1).map Prod.fst
  have habsent : key ∉ knownKeys fields (before ++ after) := fun hmem => by
    obtain ⟨m, hm, rfl⟩ := List.mem_map.mp hmem
    exact hkey m (List.mem_filter.mp hm).1 rfl
  rw [knownKeys, hkeys.nodup_iff, List.filter_cons]
  split
  · exact List.nodup_cons.trans (and_iff_right habsent)
  · rfl

/-- A key with `null` gives the `null` to its own field, and nothing else changes. -/
theorem record?_of_omits (h : Omits key v v') :
    record? fields v = (record? fields v').map (Function.update · key (some null)) := by
  obtain ⟨before, after, rfl, rfl, hkey⟩ := h
  refine Option.ext fun get => ?_
  rw [record?_object_eq_some_iff, Option.map_eq_some_iff, nodup_knownKeys_of_omitted hkey,
    lookup_of_omitted hkey]
  constructor
  · rintro ⟨hnodup, rfl⟩
    exact ⟨_, record?_object_eq_some_iff.mpr ⟨hnodup, rfl⟩, rfl⟩
  · rintro ⟨get, hget, rfl⟩
    obtain ⟨hnodup, rfl⟩ := record?_object_eq_some_iff.mp hget
    exact ⟨hnodup, rfl⟩

theorem record?_eq_none_of_omits (h : Omits key v v')
    (hget : record? fields v' = some get) : get key = none := by
  obtain ⟨before, after, -, rfl, hkey⟩ := h
  obtain ⟨-, rfl⟩ := record?_object_eq_some_iff.mp hget
  exact List.lookup_eq_none_iff.mpr fun m hm => by simpa using (hkey m hm).symm

end ReleaseInstaller.Json
