import ReleaseInstaller.Proofs.Dictionary
import ReleaseInstaller.Proofs.Json.Member
import ReleaseInstaller.Proofs.Project.Reading

/-! What is written for a project reads as the project again. -/
namespace ReleaseInstaller
open Json ValueReader

section Members
variable {key field : String} {o : Option String} {items : List Json}

theorem keys_optionalMember (key : String) (o : Option String) :
    ((optionalMember key o).map Prod.fst).Sublist [key] := by
  cases o with
  | none => exact List.nil_sublist [key]
  | some s => exact List.Sublist.refl [key]

theorem keys_listMember (key : String) (items : List Json) :
    ((listMember key items).map Prod.fst).Sublist [key] := by
  cases items with
  | nil => exact List.nil_sublist [key]
  | cons v rest => exact List.Sublist.refl [key]

theorem lookup_eq_none_of_keys {members : List (String × Json)}
    (h : (members.map Prod.fst).Sublist [key]) (hne : field ≠ key) :
    members.lookup field = none := by
  refine List.lookup_eq_none_iff.mpr fun m hm => bne_iff_ne.mpr ?_
  rintro rfl
  exact hne (List.mem_singleton.mp (h.subset (List.mem_map_of_mem hm)))

@[simp] theorem lookup_optionalMember_of_ne (h : field ≠ key) :
    (optionalMember key o).lookup field = none :=
  lookup_eq_none_of_keys (keys_optionalMember key o) h

@[simp] theorem lookup_listMember_of_ne (h : field ≠ key) : (listMember key items).lookup field = none :=
  lookup_eq_none_of_keys (keys_listMember key items) h

@[simp] theorem lookup_cons_of_ne {v : Json} {rest : List (String × Json)} (h : field ≠ key) :
    ((key, v) :: rest).lookup field = rest.lookup field := by
  rw [List.lookup_cons, beq_eq_false_iff_ne.mpr h]

/-- The members written of a record are some of its fields, in their order. -/
theorem record?_of_sublist {fields : List String} {members : List (String × Json)}
    (hfields : fields.Nodup) (h : (members.map Prod.fst).Sublist fields) :
    valueReader.record? fields (object members) = some fun field => members.lookup field :=
  record?_of_nodup (h.nodup hfields)

end Members

section Values
variable {α : Type} {write : α → Json}

@[simp] theorem withDefault_some {value : α} {read : Json → Option α} {v : Json} :
    withDefault value read (some v) = read v := rfl

@[simp] theorem text?_text (s : String) : text? (text s) = some s := rfl

@[simp] theorem textOrInteger?_text (s : String) : textOrInteger? (text s) = some s := rfl

@[simp] theorem bool?_bool (b : Bool) : bool? (bool b) = some b := rfl

/-- An optional value that is left out reads as none, which is its default. -/
theorem withDefault_optionalMember {read : Json → Option String}
    (h : ∀ s, read (text s) = some s) (key : String) (o : Option String) :
    withDefault none (optional? read) ((optionalMember key o).lookup key) = some o := by
  cases o with
  | none => rfl
  | some s =>
    rw [optionalMember, List.lookup_cons_self]
    change (read (text s)).map some = _
    rw [h, Option.map_some]

theorem list?_map {read : Json → Option α} (h : ∀ x, read (write x) = some x) (l : List α) :
    valueReader.list? read (array (l.map write)) = some l :=
  list?_eq_some_iff.mpr ⟨_, rfl, List.forall₂_map_left_iff.mpr (List.forall₂_same.mpr fun x _ => h x)⟩

/-- A list that is left out because it is empty reads as the empty list, which is its default. -/
theorem withDefault_listMember {read : Json → Option α} (h : ∀ x, read (write x) = some x)
    (key : String) (l : List α) :
    withDefault [] (valueReader.list? read) ((listMember key (l.map write)).lookup key) =
      some l := by
  cases l with
  | nil => rfl
  | cons x l =>
    rw [listMember, List.map_cons, if_neg (by simp), List.lookup_cons_self]
    exact list?_map h (x :: l)

end Values

theorem IgnoreRule.read?_toJson (r : IgnoreRule) : read? valueReader r.toJson = some r := by
  have hrevision := withDefault_optionalMember textOrInteger?_text "goarm" r.revision
  refine read?_eq_some_iff.mpr ⟨_, record?_of_sublist (by decide) ?_, ?_⟩
  · rw [List.map_append]
    exact (List.Sublist.refl ["goos", "goarch"]).append (keys_optionalMember "goarm" _)
  · simp [hrevision]

theorem Build.read?_toJson (b : Build) : read? valueReader b.toJson = some b := by
  have hsystems := withDefault_listMember text?_text "goos" b.systems
  have harchs := withDefault_listMember textOrInteger?_text "goarch" b.archs
  have hrevisions := withDefault_listMember textOrInteger?_text "goarm" b.revisions
  have hignored := withDefault_listMember IgnoreRule.read?_toJson "ignore" b.ignored
  refine read?_eq_some_iff.mpr ⟨_, record?_of_sublist (by decide) ?_, ?_⟩
  · simp only [List.map_append]
    exact ((((List.Sublist.refl ["binary"]).append (keys_listMember "goos" _)).append
      (keys_listMember "goarch" _)).append (keys_listMember "goarm" _)).append
      (keys_listMember "ignore" _)
  · simp [List.lookup_append, hsystems, harchs, hrevisions, hignored]

theorem FormatOverride.read?_toJson (o : FormatOverride) : read? valueReader o.toJson = some o := by
  refine read?_eq_some_iff.mpr ⟨_, record?_of_sublist (by decide) ?_, ?_⟩
  · exact List.Sublist.refl ["goos", "format"]
  · simp

namespace Project

theorem readRepo?_repoToJson (r : Repo) : readRepo? valueReader (repoToJson r) = some r := by
  refine readRepo?_eq_some_iff.mpr ⟨_, record?_of_sublist (by decide) ?_, ?_⟩
  · exact List.Sublist.refl ["owner", "name"]
  · simp

theorem readRelease?_object (r : Repo) :
    readRelease? valueReader (object [("github", repoToJson r)]) = some r := by
  refine readRelease?_eq_some_iff.mpr ⟨_, record?_of_sublist (by decide) ?_, ?_⟩
  · exact List.Sublist.refl ["github"]
  · simp [readRepo?_repoToJson]

theorem dictionary?_dictionaryToJson (d : Dictionary) :
    valueReader.dictionary? (dictionaryToJson d) = some d := by
  refine dictionary?_eq_some_iff.mpr ⟨_, rfl, d.entries, ?_, Dictionary.ofList_entries d⟩
  exact List.forall₂_map_left_iff.mpr (List.forall₂_same.mpr fun _ _ => rfl)

theorem keys_replacements (d : Dictionary) :
    (List.map Prod.fst (if d.isEmpty then [] else [("replacements", dictionaryToJson d)])).Sublist
      ["replacements"] := by
  split
  · exact List.nil_sublist ["replacements"]
  · exact List.Sublist.refl ["replacements"]

theorem lookup_replacements_of_ne {d : Dictionary} {field : String} (h : field ≠ "replacements") :
    List.lookup field (if d.isEmpty then [] else [("replacements", dictionaryToJson d)]) = none :=
  lookup_eq_none_of_keys (keys_replacements d) h

theorem withDefault_replacements (d : Dictionary) : withDefault ∅ valueReader.dictionary?
    (List.lookup "replacements"
      (if d.isEmpty then [] else [("replacements", dictionaryToJson d)])) = some d := by
  split
  · rename_i hempty
    exact congrArg some (Dictionary.ext (List.isEmpty_iff.mp hempty).symm)
  · rw [List.lookup_cons_self]
    exact dictionary?_dictionaryToJson d

theorem readArchive?_archiveToJson (a : Archive) :
    readArchive? valueReader (archiveToJson a) = some a := by
  have htemplate := withDefault_optionalMember text?_text "name_template" a.nameTemplate
  have hformat := withDefault_optionalMember text?_text "format" a.format
  have hoverrides :=
    withDefault_listMember FormatOverride.read?_toJson "format_overrides" a.formatOverrides
  refine readArchive?_eq_some_iff.mpr ⟨_, record?_of_sublist (by decide) ?_, ?_⟩
  · simp only [List.map_append]
    exact ((((keys_optionalMember "name_template" _).append (keys_optionalMember "format" _)).append
      (keys_listMember "format_overrides" _)).append (keys_replacements a.replacements)).append
      (List.Sublist.refl ["wrap_in_directory"])
  · simp [List.lookup_append, lookup_replacements_of_ne, htemplate, hformat, hoverrides,
      withDefault_replacements]

theorem readChecksum?_checksumToJson (t : Option String) :
    readChecksum? valueReader (checksumToJson t) = some t := by
  refine readChecksum?_eq_some_iff.mpr ⟨_, record?_of_sublist (by decide) ?_, ?_⟩
  · exact keys_optionalMember "name_template" t
  · exact withDefault_optionalMember text?_text "name_template" t

/-- Reading a description as it is written gives the project that was written. -/
theorem ofJson?_toJson (p : Project) : ofJson? p.toJson = some p := by
  have hname := withDefault_optionalMember text?_text "project_name" p.name
  have hbuilds := withDefault_listMember Build.read?_toJson "builds" p.builds
  refine read?_eq_some_iff.mpr ⟨_, record?_of_sublist (by decide) ?_, ?_⟩
  · simp only [List.map_append]
    exact (((keys_optionalMember "project_name" _).append (List.Sublist.refl ["release"])).append
      (keys_listMember "builds" _)).append (List.Sublist.refl ["archive", "checksum"])
  · simp [List.lookup_append, hname, hbuilds, readRelease?_object, readArchive?_archiveToJson,
      readChecksum?_checksumToJson]

end Project

end ReleaseInstaller
