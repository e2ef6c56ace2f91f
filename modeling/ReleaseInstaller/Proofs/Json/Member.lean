import Mathlib.Data.List.Nodup
import Mathlib.Data.List.Perm.Basic
import ReleaseInstaller.Project.Document

/-! The members of objects, and what records find among them. -/
namespace ReleaseInstaller.Json

variable {fields : List String} {members members' : List (String × Json)} {key : String} {v : Json}

/-- Without a key twice, what is looked up is what is there. -/
theorem lookup_eq_some_iff_mem (h : (members.map Prod.fst).Nodup) :
    members.lookup key = some v ↔ (key, v) ∈ members := by
  constructor
  · intro hlookup
    obtain ⟨before, after, rfl, -⟩ := List.lookup_eq_some_iff.mp hlookup
    exact List.mem_append_right _ List.mem_cons_self
  · intro hmem
    obtain ⟨before, after, rfl⟩ := List.append_of_mem hmem
    rw [List.map_append, List.nodup_append] at h
    refine List.lookup_eq_some_iff.mpr ⟨before, after, rfl, fun m hm => bne_iff_ne.mpr ?_⟩
    exact (h.2.2 m.1 (List.mem_map_of_mem hm) key List.mem_cons_self).symm

theorem eq_of_mem_of_mem {w : Json} (h : (members.map Prod.fst).Nodup) (hv : (key, v) ∈ members)
    (hw : (key, w) ∈ members) : v = w :=
  (Prod.mk.inj (List.inj_on_of_nodup_map h hv hw rfl)).2

theorem lookup_filter_of_mem (h : key ∈ fields) :
    (members.filter fun m => fields.contains m.1).lookup key = members.lookup key := by
  induction members with
  | nil => rfl
  | cons m rest ih =>
    by_cases hkey : key = m.1
    · have hknown : fields.contains m.1 = true := List.contains_iff_mem.mpr (hkey ▸ h)
      rw [List.filter_cons, if_pos hknown, List.lookup_cons, List.lookup_cons, hkey,
        beq_self_eq_true]
    · have hne : (key == m.1) = false := beq_eq_false_iff_ne.mpr hkey
      rw [List.filter_cons]
      split
      · rw [List.lookup_cons, List.lookup_cons, hne, ih]
      · rw [List.lookup_cons, hne, ih]

/-- The keys of the members that a record with the given fields knows. -/
def knownKeys (fields : List String) (members : List (String × Json)) : List String :=
  (members.filter fun m => fields.contains m.1).map Prod.fst

theorem record?_object_eq_some_iff {get : String → Option Json} :
    record? fields (object members) = some get ↔
      (knownKeys fields members).Nodup ∧ get = fun field => members.lookup field := by
  rw [record?]
  split
  · rename_i h
    rw [Option.some.injEq, eq_comm]
    exact (and_iff_right h).symm
  · rename_i h
    exact iff_of_false nofun fun hget => h hget.1

/-- Without a known key twice, the fields of a record get what is there under their names. -/
theorem lookup_eq_some_iff_mem_of_known (h : (knownKeys fields members).Nodup) (hkey : key ∈ fields) :
    members.lookup key = some v ↔ (key, v) ∈ members := by
  rw [← lookup_filter_of_mem hkey, lookup_eq_some_iff_mem h, List.mem_filter]
  exact and_iff_left (List.contains_iff_mem.mpr hkey)

/-- A record without a key twice gives to each field what is there under its name. -/
theorem record?_of_nodup (h : (members.map Prod.fst).Nodup) :
    record? fields (object members) = some fun field => members.lookup field :=
  record?_object_eq_some_iff.mpr ⟨(List.filter_sublist.map Prod.fst).nodup h, rfl⟩

section Values

@[simp] theorem valueReader_entries? : valueReader.entries? = members? := rfl

@[simp] theorem valueReader_text? : valueReader.text? = text? := rfl

@[simp] theorem valueReader_optionalText? : valueReader.optionalText? = optional? text? := rfl

@[simp] theorem valueReader_textOrInteger? : valueReader.textOrInteger? = textOrInteger? := rfl

@[simp] theorem valueReader_optionalTextOrInteger? :
    valueReader.optionalTextOrInteger? = optional? textOrInteger? := rfl

@[simp] theorem valueReader_truth? : valueReader.truth? = bool? := rfl

theorem text?_eq_some_iff {s : String} : v.text? = some s ↔ v = text s := by
  cases v <;> simp [text?]

theorem bool?_eq_some_iff {b : Bool} : v.bool? = some b ↔ v = bool b := by
  cases v <;> simp [bool?]

theorem items?_eq_some_iff {items : List Json} : v.items? = some items ↔ v = array items := by
  cases v <;> simp [items?]

theorem members?_eq_some_iff : v.members? = some members ↔ v = object members := by
  cases v <;> simp [members?]

theorem optional?_of_ne_null {β : Type} {read : Json → Option β} (h : v ≠ null) :
    optional? read v = (read v).map some := by
  cases v with
  | null => exact absurd rfl h
  | _ => rfl

end Values

end ReleaseInstaller.Json
