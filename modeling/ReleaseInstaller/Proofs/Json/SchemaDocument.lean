import ReleaseInstaller.Proofs.Json.Admission
import ReleaseInstaller.Proofs.Json.Place
import ReleaseInstaller.Proofs.Json.Validation

/-! The document that is written of a schema demands what the schema says. -/
namespace ReleaseInstaller.Json
open Schema

variable {root : List (String × Json)} {v : Json}

/-- The names in a schema lead to the schemas that they stand for. -/
def Defines (root : List (String × Json)) (definitions : List (String × String × Schema)) : Prop :=
  ∀ name description target, (name, description, target) ∈ definitions → ∀ x,
    (∃ entries, ("definitions", object entries) ∈ root ∧ (name, x) ∈ entries) ↔
      x = object (("description", text description) :: targetKeywords target)

theorem Defines.of_append {l l' : List (String × String × Schema)} (h : Defines root (l ++ l')) :
    Defines root l ∧ Defines root l' :=
  ⟨fun name description target hmem => h name description target (List.mem_append_left _ hmem),
    fun name description target hmem => h name description target (List.mem_append_right _ hmem)⟩

-- The induction is on the schema: a reference in its document leads to a part of it, never back.
mutual

/-- The keywords of a schema, and those of what it stands for, demand what the schema says. -/
theorem isInstance_iff_admits (s : Schema) (hdefines : Defines root (definitions s)) (v : Json)
    (hkeys : v.HasDistinctKeys) :
    (IsInstance root (object (Schema.keywords s)) v ↔ Admits s v) ∧
      (IsInstance root (object (targetKeywords s)) v ↔ Admits s v) := by
  cases s with
  | text =>
    have h : IsInstance root (object (Schema.keywords .text)) v ↔ Admits .text v :=
      isInstance_text.trans admits_text.symm
    exact ⟨h, h⟩
  | optionalText =>
    have h : IsInstance root (object (Schema.keywords .optionalText)) v ↔ Admits .optionalText v :=
      isInstance_optionalText.trans admits_optionalText.symm
    exact ⟨h, h⟩
  | truth =>
    have h : IsInstance root (object (Schema.keywords .truth)) v ↔ Admits .truth v :=
      isInstance_truth.trans admits_truth.symm
    exact ⟨h, h⟩
  | list items =>
    have h : IsInstance root (object (Schema.keywords (.list items))) v ↔ Admits (.list items) v := by
      rw [isInstance_list, admits_list]
      refine exists_congr fun vs => and_congr_right ?_
      rintro rfl
      exact forall₂_congr fun x hx =>
        (isInstance_iff_admits items hdefines x (hasDistinctKeys_array.mp hkeys x hx)).1
    exact ⟨h, h⟩
  | map values =>
    have h : IsInstance root (object (Schema.keywords (.map values))) v ↔
        Admits (.map values) v := by
      rw [isInstance_map, admits_map]
      refine exists_congr fun members => and_congr_right ?_
      rintro rfl
      exact forall₂_congr fun m hm =>
        (isInstance_iff_admits values hdefines m.2 ((hasDistinctKeys_object.mp hkeys).2 m hm)).1
    exact ⟨h, h⟩
  | record fields =>
    have h : IsInstance root (object (Schema.keywords (.record fields))) v ↔
        Admits (.record fields) v := by
      rw [isInstance_record, admits_record]
      refine exists_congr fun members => and_congr_right ?_
      rintro rfl
      exact isInstance_iff_admitsMembers fields hdefines members hkeys
    exact ⟨h, h⟩
  | named name description target =>
    -- The definition has the keywords of the target, not those of the reference to it.
    have htarget := isInstance_iff_admits target
      (fun name description target hmem => hdefines name description target (.tail _ hmem)) v hkeys
    have hentry := hdefines name description target (.head _)
    have hdescription : IsInstance root (object ([("description", text description)] ++
        targetKeywords target)) v ↔ IsInstance root (object (targetKeywords target)) v :=
      isInstance_append (by simp [demands])
    have hinstance := hdescription.trans htarget.2
    have hreference : IsInstance root (reference name) v ↔ Admits target v := by
      rw [isInstance_reference]
      constructor
      · rintro ⟨entries, x, hroot, hname, h⟩
        obtain rfl := (hentry x).mp ⟨entries, hroot, hname⟩
        exact hinstance.mp h
      · intro h
        obtain ⟨entries, hroot, hname⟩ := (hentry _).mpr rfl
        exact ⟨entries, _, hroot, hname, hinstance.mpr h⟩
    rw [admits_named]
    exact ⟨hreference, htarget.2⟩

theorem isInstance_iff_admitsMembers (fields : List (MemberInfo × Schema))
    (hdefines : Defines root (memberDefinitions fields)) (members : List (String × Json))
    (hkeys : (object members).HasDistinctKeys) :
    ((∀ name ∈ requiredNames fields, ∃ x, (name, x) ∈ members) ∧
      ∀ name s x, (name, s) ∈ properties fields → (name, x) ∈ members → IsInstance root s x) ↔
      AdmitsMembers fields members := by
  match fields with
  | [] => simp [requiredNames, properties, AdmitsMembers.nil]
  | (info, s) :: rest =>
    obtain ⟨hdefines, hdefinesRest⟩ := Defines.of_append hdefines
    have hrest := isInstance_iff_admitsMembers rest hdefinesRest members hkeys
    obtain ⟨x, hproperties, hx⟩ := exists_property info s
    have hmember : AdmitsMember info s members ↔
        (info.required = true → ∃ y, (info.name, y) ∈ members) ∧
          ∀ y, (info.name, y) ∈ members → IsInstance root x y := by
      refine and_congr_right fun _ => forall₂_congr fun y hy => ?_
      rw [hx]
      exact (isInstance_iff_admits s hdefines y ((hasDistinctKeys_object.mp hkeys).2 _ hy)).1.symm
    rw [admitsMembers_cons hkeys.nodup, ← hrest, hmember, hproperties]
    simp only [forall_mem_requiredNames_cons, List.mem_cons, Prod.mk.injEq]
    constructor
    · rintro ⟨⟨hrequired, hrequiredRest⟩, h⟩
      exact ⟨⟨hrequired, fun y => h _ _ y (.inl ⟨rfl, rfl⟩)⟩, hrequiredRest,
        fun name s' y hs => h name s' y (.inr hs)⟩
    · rintro ⟨⟨hrequired, hx⟩, hrequiredRest, h⟩
      refine ⟨⟨hrequired, hrequiredRest⟩, fun name s' y hs => ?_⟩
      rcases hs with ⟨rfl, rfl⟩ | hs
      · exact hx y
      · exact h name s' y hs

end

theorem mem_demands_of_mem_keywords {s : Schema} {m : String × Json}
    (h : m ∈ Schema.keywords s) : m.1 ∈ demands := by
  cases s with
  | record fields =>
    rw [Schema.keywords, List.mem_append, List.mem_append, List.mem_singleton, mem_requiredKeyword,
      mem_memberUnlessEmpty] at h
    rcases h with (rfl | ⟨-, hkey, -⟩) | ⟨-, hkey, -⟩
    · decide
    · exact hkey ▸ by decide
    · exact hkey ▸ by decide
  | list items | map values =>
    rw [Schema.keywords, List.mem_pair] at h
    rcases h with rfl | rfl <;> simp [demands]
  | text | optionalText | truth | named name description target =>
    obtain rfl := List.mem_singleton.mp h
    simp [demands]

/-- The entry of a named schema among the definitions of a document. -/
def definitionEntry (d : String × String × Schema) : String × Json :=
  (d.1, object (("description", text d.2.1) :: targetKeywords d.2.2))

/-- The members at the top of the document of a schema. -/
def headMembers (title description : String) : List (String × Json) :=
  [("$schema", text "http://json-schema.org/draft-07/schema#"), ("title", text title),
    ("description", text description)]

/-- The members of the document of a schema. -/
def documentMembers (s : Schema) (title description : String) : List (String × Json) :=
  headMembers title description ++ Schema.keywords s ++ memberUnlessEmpty "definitions"
    (((definitions s).map definitionEntry).mergeSort fun a b => a.1 ≤ b.1)

section Documents
variable {s : Schema} {title description : String}

theorem document_eq : s.document title description = object (documentMembers s title description) :=
  rfl

theorem key_notMem_demands_of_mem_headMembers {m : String × Json}
    (h : m ∈ headMembers title description) : m.1 ∉ demands := by
  simp only [headMembers, List.mem_cons, List.not_mem_nil, or_false] at h
  rcases h with rfl | rfl | rfl <;> simp [demands]

/-- The definitions stand in the document under their names. -/
theorem exists_definitions_iff {name : String} {x : Json} :
    (∃ entries, ("definitions", object entries) ∈ documentMembers s title description ∧
      (name, x) ∈ entries) ↔ (name, x) ∈ (definitions s).map definitionEntry := by
  have hdefinitions : ∀ y, ("definitions", y) ∈ documentMembers s title description ↔
      ("definitions", y) ∈ memberUnlessEmpty "definitions"
        (((definitions s).map definitionEntry).mergeSort fun a b => a.1 ≤ b.1) := by
    intro y
    rw [documentMembers, List.mem_append, List.mem_append]
    refine or_iff_right ?_
    rintro (hhead | hkeywords)
    · simp [headMembers] at hhead
    · have hdemand : "definitions" ∈ demands := mem_demands_of_mem_keywords hkeywords
      exact absurd hdemand (by decide)
  simp only [hdefinitions, mem_memberUnlessEmpty, true_and, object.injEq]
  constructor
  · rintro ⟨entries, ⟨-, rfl⟩, hmem⟩
    exact List.mem_mergeSort.mp hmem
  · intro hmem
    have hsorted : (name, x) ∈ ((definitions s).map definitionEntry).mergeSort fun a b => a.1 ≤ b.1 :=
      List.mem_mergeSort.mpr hmem
    exact ⟨_, ⟨List.ne_nil_of_mem hsorted, rfl⟩, hsorted⟩

theorem defines_documentMembers (hnames : ((definitions s).map Prod.fst).Nodup) :
    Defines (documentMembers s title description) (definitions s) := by
  intro name about target hmem x
  rw [exists_definitions_iff]
  constructor
  · intro hx
    obtain ⟨d, hd, heq⟩ := List.mem_map.mp hx
    obtain ⟨rfl, rfl⟩ := Prod.mk.inj heq
    have hsame : d = (d.1, about, target) := List.inj_on_of_nodup_map hnames hd hmem rfl
    rw [hsame]
  · rintro rfl
    exact List.mem_map_of_mem hmem

/-- The document of a schema, read as such documents are read, demands what the schema says. -/
theorem validates_document_iff (hnames : ((definitions s).map Prod.fst).Nodup)
    (hkeys : v.HasDistinctKeys) : Validates (s.document title description) v ↔ Admits s v := by
  have hdemands : IsInstance (documentMembers s title description)
      (object (documentMembers s title description)) v ↔
      IsInstance (documentMembers s title description) (object (Schema.keywords s)) v := by
    refine isInstance_congr fun key hkey x => ?_
    rw [documentMembers, List.mem_append, List.mem_append, mem_memberUnlessEmpty]
    constructor
    · rintro ((hhead | hkeywords) | ⟨-, rfl, -⟩)
      · exact absurd hkey (key_notMem_demands_of_mem_headMembers hhead)
      · exact hkeywords
      · exact absurd hkey (by decide)
    · exact fun h => .inl (.inr h)
  rw [← (isInstance_iff_admits s (defines_documentMembers hnames) v hkeys).1, ← hdemands,
    document_eq]
  constructor
  · rintro ⟨root, hroot, h⟩
    exact object.inj hroot ▸ h
  · intro h
    exact ⟨_, rfl, h⟩

end Documents

end ReleaseInstaller.Json
