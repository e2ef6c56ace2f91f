import Mathlib.Algebra.Ring.Int.Defs
import ReleaseInstaller.Json.Schema

/-! What a document that describes a schema demands of other documents, by the rules for such
documents and as far as schemas here use them; and what the keywords that are written of a schema
demand, form by form. -/
namespace ReleaseInstaller.Json

/-- Whether a document is of the type with the given name. -/
def isOfType (name : String) : Json → Bool
  | null => name == "null"
  | bool _ => name == "boolean"
  | integer _ => name == "number" || name == "integer"
  -- A number is an integer by its value: `1.0` is one.
  | decimal coefficient exponent =>
    name == "number" || name == "integer" && coefficient % 10 ^ (-exponent).toNat == 0
  | text _ => name == "string"
  | array _ => name == "array"
  | object _ => name == "object"
  | unreadable => false

/-- The keyword `type` gives one name, or several of which one has to fit. -/
def MeetsType (v : Json) : Json → Prop
  | text name => v.isOfType name
  | array names => ∃ name, text name ∈ names ∧ v.isOfType name
  | _ => False

/-- `v` is valid against the schema that the second document gives, within a schema document with the
given members. Keywords that are not named here say nothing. -/
inductive IsInstance (root : List (String × Json)) : Json → Json → Prop where
  /-- Beside a reference no other keyword counts. -/
  | reference {keywords definitions : List (String × Json)} {name : String} {s v : Json}
      (href : ("$ref", text ("#/definitions/" ++ name)) ∈ keywords)
      (hroot : ("definitions", object definitions) ∈ root) (hname : (name, s) ∈ definitions)
      (h : IsInstance root s v) : IsInstance root (object keywords) v
  | keywords {keywords : List (String × Json)} {v : Json}
      (hreference : ∀ x, ("$ref", x) ∉ keywords)
      (htype : ∀ t, ("type", t) ∈ keywords → v.MeetsType t)
      (hrequired : ∀ names, ("required", array names) ∈ keywords → ∀ members, v = object members →
        ∀ name, text name ∈ names → ∃ x, (name, x) ∈ members)
      (hproperties : ∀ properties, ("properties", object properties) ∈ keywords →
        ∀ members, v = object members → ∀ name s x, (name, s) ∈ properties → (name, x) ∈ members →
          IsInstance root s x)
      (hadditional : ∀ s, ("additionalProperties", s) ∈ keywords →
        ∀ members, v = object members → ∀ m ∈ members,
          (∀ properties, ("properties", object properties) ∈ keywords →
            m.1 ∉ properties.map Prod.fst) → IsInstance root s m.2)
      (hitems : ∀ s, ("items", s) ∈ keywords → ∀ items, v = array items → ∀ x ∈ items,
        IsInstance root s x)
      (hallOf : ∀ schemas, ("allOf", array schemas) ∈ keywords → ∀ s ∈ schemas,
        IsInstance root s v) :
      IsInstance root (object keywords) v

/-- The document `v` is valid against the schema that the document `schema` describes. -/
def Validates (schema v : Json) : Prop := ∃ root, schema = object root ∧ IsInstance root schema v

variable {root keywords keywords' : List (String × Json)} {v : Json}

/-- The keywords that demand something. -/
def demands : List String :=
  ["$ref", "type", "required", "properties", "additionalProperties", "items", "allOf"]

theorem IsInstance.congr (h : ∀ key ∈ demands, ∀ x, (key, x) ∈ keywords → (key, x) ∈ keywords')
    (h' : ∀ key ∈ demands, ∀ x, (key, x) ∈ keywords' → (key, x) ∈ keywords)
    (hv : IsInstance root (object keywords) v) : IsInstance root (object keywords') v := by
  cases hv with
  | reference href hroot hname hv => exact .reference (h _ (by decide) _ href) hroot hname hv
  | keywords hreference htype hrequired hproperties hadditional hitems hallOf =>
    exact .keywords (fun x hx => hreference x (h' _ (by decide) x hx))
      (fun t ht => htype t (h' _ (by decide) _ ht))
      (fun names hnames => hrequired names (h' _ (by decide) _ hnames))
      (fun properties hprops => hproperties properties (h' _ (by decide) _ hprops))
      (fun s hs members hmembers m hm hother => hadditional s (h' _ (by decide) _ hs) members
        hmembers m hm fun properties hprops => hother properties (h _ (by decide) _ hprops))
      (fun s hs => hitems s (h' _ (by decide) _ hs))
      (fun schemas hschemas => hallOf schemas (h' _ (by decide) _ hschemas))

/-- Schemas with the same demands have the same instances. -/
theorem isInstance_congr
    (h : ∀ key ∈ demands, ∀ x, (key, x) ∈ keywords ↔ (key, x) ∈ keywords') :
    IsInstance root (object keywords) v ↔ IsInstance root (object keywords') v :=
  ⟨.congr (fun key hkey x => (h key hkey x).mp) fun key hkey x => (h key hkey x).mpr,
    .congr (fun key hkey x => (h key hkey x).mpr) fun key hkey x => (h key hkey x).mp⟩

/-- Keywords that demand nothing can be left out. -/
theorem isInstance_append {notes : List (String × Json)} (h : ∀ m ∈ notes, m.1 ∉ demands) :
    IsInstance root (object (notes ++ keywords)) v ↔ IsInstance root (object keywords) v := by
  refine isInstance_congr fun key hkey x => ?_
  rw [List.mem_append]
  exact or_iff_right fun hmem => h _ hmem hkey

/-- Without a reference each keyword makes its demand. -/
theorem isInstance_iff (hreference : ∀ x, ("$ref", x) ∉ keywords) :
    IsInstance root (object keywords) v ↔
      (∀ t, ("type", t) ∈ keywords → v.MeetsType t) ∧
      (∀ names, ("required", array names) ∈ keywords → ∀ members, v = object members →
        ∀ name, text name ∈ names → ∃ x, (name, x) ∈ members) ∧
      (∀ properties, ("properties", object properties) ∈ keywords →
        ∀ members, v = object members → ∀ name s x, (name, s) ∈ properties → (name, x) ∈ members →
          IsInstance root s x) ∧
      (∀ s, ("additionalProperties", s) ∈ keywords →
        ∀ members, v = object members → ∀ m ∈ members,
          (∀ properties, ("properties", object properties) ∈ keywords →
            m.1 ∉ properties.map Prod.fst) → IsInstance root s m.2) ∧
      (∀ s, ("items", s) ∈ keywords → ∀ items, v = array items → ∀ x ∈ items,
        IsInstance root s x) ∧
      ∀ schemas, ("allOf", array schemas) ∈ keywords → ∀ s ∈ schemas, IsInstance root s v := by
  constructor
  · intro h
    cases h with
    | reference href => exact absurd href (hreference _)
    | keywords _ htype hrequired hproperties hadditional hitems hallOf =>
      exact ⟨htype, hrequired, hproperties, hadditional, hitems, hallOf⟩
  · rintro ⟨htype, hrequired, hproperties, hadditional, hitems, hallOf⟩
    exact .keywords hreference htype hrequired hproperties hadditional hitems hallOf

/-- What the names of the types stand for, those of numbers aside. -/
theorem isOfType_iff (v : Json) : (v.isOfType "null" ↔ v = null) ∧
    (v.isOfType "string" ↔ ∃ s, v = text s) ∧ (v.isOfType "boolean" ↔ ∃ b, v = bool b) ∧
    (v.isOfType "array" ↔ ∃ vs, v = array vs) ∧
    (v.isOfType "object" ↔ ∃ members, v = object members) := by
  cases v <;> simp [isOfType]

theorem meetsType_text {name : String} : v.MeetsType (text name) ↔ v.isOfType name := Iff.rfl

theorem meetsType_array {names : List Json} :
    v.MeetsType (array names) ↔ ∃ name, text name ∈ names ∧ v.isOfType name := Iff.rfl

theorem meetsType_object : v.MeetsType (text "object") ↔ ∃ members, v = object members :=
  (isOfType_iff v).2.2.2.2

section Forms
open Schema

theorem isInstance_text :
    IsInstance root (object (Schema.keywords .text)) v ↔ ∃ s, v = text s := by
  obtain ⟨-, hstring, -⟩ := isOfType_iff v
  have hkeywords : Schema.keywords .text = [("type", text "string")] := rfl
  rw [hkeywords, isInstance_iff (by simp)]
  simp [meetsType_text, hstring]

theorem isInstance_optionalText : IsInstance root (object (Schema.keywords .optionalText)) v ↔
    v = null ∨ ∃ s, v = text s := by
  obtain ⟨hnull, hstring, -⟩ := isOfType_iff v
  have hkeywords : Schema.keywords .optionalText = [("type", array [text "string", text "null"])] := rfl
  rw [hkeywords, isInstance_iff (by simp)]
  simp [meetsType_array, hnull, hstring, or_comm]

theorem isInstance_truth :
    IsInstance root (object (Schema.keywords .truth)) v ↔ ∃ b, v = bool b := by
  obtain ⟨-, -, hboolean, -⟩ := isOfType_iff v
  have hkeywords : Schema.keywords .truth = [("type", text "boolean")] := rfl
  rw [hkeywords, isInstance_iff (by simp)]
  simp [meetsType_text, hboolean]

theorem isInstance_list {items : Schema} :
    IsInstance root (object (Schema.keywords (.list items))) v ↔
      ∃ vs, v = array vs ∧ ∀ x ∈ vs, IsInstance root (object (Schema.keywords items)) x := by
  obtain ⟨-, -, -, harray, -⟩ := isOfType_iff v
  have hkeywords : Schema.keywords (.list items) =
      [("type", text "array"), ("items", object (Schema.keywords items))] := rfl
  rw [hkeywords, isInstance_iff (by simp)]
  cases v <;> simp [meetsType_text, harray]

theorem isInstance_map {values : Schema} :
    IsInstance root (object (Schema.keywords (.map values))) v ↔ ∃ members, v = object members ∧
      ∀ m ∈ members, IsInstance root (object (Schema.keywords values)) m.2 := by
  have hkeywords : Schema.keywords (.map values) =
      [("type", text "object"), ("additionalProperties", object (Schema.keywords values))] := rfl
  rw [hkeywords, isInstance_iff (by simp)]
  cases v <;> simp [meetsType_object]

theorem mem_memberUnlessEmpty {key name : String} {members : List (String × Json)} {x : Json} :
    (name, x) ∈ memberUnlessEmpty key members ↔
      members ≠ [] ∧ name = key ∧ x = object members := by
  cases members <;> simp [memberUnlessEmpty]

theorem mem_requiredKeyword {names : List String} {name : String} {x : Json} :
    (name, x) ∈ (if names.isEmpty then [] else [("required", array (names.map text))]) ↔
      names ≠ [] ∧ name = "required" ∧ x = array (names.map text) := by
  cases names <;> simp

/-- A record is an object in which the required members are there, and each described member is as
described. -/
theorem isInstance_record {fields : List (MemberInfo × Schema)} :
    IsInstance root (object (Schema.keywords (.record fields))) v ↔
      ∃ members, v = object members ∧ (∀ name ∈ requiredNames fields, ∃ x, (name, x) ∈ members) ∧
        ∀ name s x, (name, s) ∈ properties fields → (name, x) ∈ members → IsInstance root s x := by
  have hreference : ∀ x, ("$ref", x) ∉ Schema.keywords (.record fields) := by
    simp [Schema.keywords, mem_memberUnlessEmpty]
  rw [isInstance_iff hreference]
  simp only [Schema.keywords, List.mem_append, List.mem_singleton, mem_memberUnlessEmpty,
    mem_requiredKeyword, Prod.mk.injEq, String.reduceEq, false_and, and_false, or_false, false_or,
    true_and]
  constructor
  · rintro ⟨htype, hrequired, hproperties, -⟩
    obtain ⟨members, rfl⟩ := meetsType_object.mp (htype _ rfl)
    refine ⟨members, rfl, fun name hname => ?_, fun name s x hs => ?_⟩
    · exact hrequired _ ⟨List.ne_nil_of_mem hname, rfl⟩ members rfl name (List.mem_map_of_mem hname)
    · exact hproperties _ ⟨List.ne_nil_of_mem hs, rfl⟩ members rfl name s x hs
  · rintro ⟨members, rfl, hrequired, hproperties⟩
    refine ⟨?_, ?_, ?_, fun _ h => h.elim, fun _ h => h.elim, fun _ h => h.elim⟩
    · rintro t rfl
      exact meetsType_object.mpr ⟨members, rfl⟩
    · rintro names ⟨-, hnames⟩ _ hmembers name hname
      obtain rfl := array.inj hnames
      obtain rfl := object.inj hmembers
      obtain ⟨required, hrequiredName, hname⟩ := List.mem_map.mp hname
      exact text.inj hname ▸ hrequired required hrequiredName
    · rintro described ⟨-, hdescribed⟩ _ hmembers
      obtain rfl := object.inj hdescribed
      obtain rfl := object.inj hmembers
      exact hproperties

theorem isInstance_reference {name : String} : IsInstance root (reference name) v ↔
    ∃ definitions s, ("definitions", object definitions) ∈ root ∧ (name, s) ∈ definitions ∧
      IsInstance root s v := by
  constructor
  · intro h
    cases h with
    | reference href hroot hname h =>
      rw [List.mem_singleton, Prod.mk.injEq, text.injEq, String.append_right_inj] at href
      exact ⟨_, _, hroot, href.2 ▸ hname, h⟩
    | keywords hreference => exact absurd List.mem_cons_self (hreference _)
  · rintro ⟨definitions, s, hroot, hname, h⟩
    exact .reference List.mem_cons_self hroot hname h

/-- A reference that stands in a list of its own counts like the reference. -/
theorem isInstance_allOf {s : Json} :
    IsInstance root (object [("allOf", array [s])]) v ↔ IsInstance root s v := by
  rw [isInstance_iff (by simp)]
  simp

/-- What the description of a member says besides its schema demands nothing. -/
theorem exists_property (info : MemberInfo) (s : Schema) : ∃ x,
    (∀ rest, properties ((info, s) :: rest) = (info.name, x) :: properties rest) ∧
      ∀ root v, IsInstance root x v ↔ IsInstance root (object (Schema.keywords s)) v := by
  cases s with
  | named name description target =>
    refine ⟨_, fun rest => by rw [properties], fun root v => ?_⟩
    rw [isInstance_append]
    · exact isInstance_allOf
    · cases info.fallback <;> simp [demands]
  | _ =>
    refine ⟨_, fun rest => by rw [properties]; exact nofun, fun root v => ?_⟩
    rw [isInstance_append]
    cases info.fallback <;> simp [demands]

theorem forall_mem_requiredNames_cons {info : MemberInfo} {s : Schema}
    {fields : List (MemberInfo × Schema)} {P : String → Prop} :
    (∀ name ∈ requiredNames ((info, s) :: fields), P name) ↔
      (info.required = true → P info.name) ∧ ∀ name ∈ requiredNames fields, P name := by
  cases h : info.required <;> simp [requiredNames, h]

end Forms

end ReleaseInstaller.Json
