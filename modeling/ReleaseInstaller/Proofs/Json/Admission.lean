import ReleaseInstaller.Json.Schema
import ReleaseInstaller.Proofs.Json.Member

/-! What the documents are like that a schema admits. -/
namespace ReleaseInstaller.Schema

variable {s : Schema} {v : Json} {vs : List Json} {fields : List (MemberInfo × Schema)}
  {members : List (String × Json)} {info : MemberInfo}

theorem admits_text : Admits .text v ↔ ∃ s, v = .text s := by
  constructor
  · rintro ⟨⟩
    exact ⟨_, rfl⟩
  · rintro ⟨s, rfl⟩
    exact .text s

theorem admits_optionalText : Admits .optionalText v ↔ v = .null ∨ ∃ s, v = .text s := by
  constructor
  · intro h
    cases h with
    | someText s => exact .inr ⟨s, rfl⟩
    | noText => exact .inl rfl
  · rintro (rfl | ⟨s, rfl⟩)
    · exact .noText
    · exact .someText s

theorem admits_truth : Admits .truth v ↔ ∃ b, v = .bool b := by
  constructor
  · rintro ⟨⟩
    exact ⟨_, rfl⟩
  · rintro ⟨b, rfl⟩
    exact .truth b

theorem admitsAll_iff : AdmitsAll s vs ↔ ∀ v ∈ vs, Admits s v := by
  induction vs with
  | nil => exact ⟨fun _ v hv => absurd hv List.not_mem_nil, fun _ => .nil⟩
  | cons v vs ih =>
    rw [List.forall_mem_cons, ← ih]
    constructor
    · rintro ⟨⟩
      exact ⟨‹_›, ‹_›⟩
    · rintro ⟨hv, hvs⟩
      exact .cons hv hvs

theorem admits_list : Admits (.list s) v ↔ ∃ vs, v = .array vs ∧ ∀ x ∈ vs, Admits s x := by
  constructor
  · rintro ⟨⟩
    exact ⟨_, rfl, admitsAll_iff.mp ‹_›⟩
  · rintro ⟨vs, rfl, h⟩
    exact .list (admitsAll_iff.mpr h)

theorem admits_map :
    Admits (.map s) v ↔ ∃ members, v = .object members ∧ ∀ m ∈ members, Admits s m.2 := by
  constructor
  · rintro ⟨⟩
    exact ⟨_, rfl, List.forall_mem_map.mp (admitsAll_iff.mp ‹_›)⟩
  · rintro ⟨members, rfl, h⟩
    exact .map (admitsAll_iff.mpr (List.forall_mem_map.mpr h))

theorem admits_record :
    Admits (.record fields) v ↔ ∃ members, v = .object members ∧ AdmitsMembers fields members := by
  constructor
  · rintro ⟨⟩
    exact ⟨_, rfl, ‹_›⟩
  · rintro ⟨members, rfl, h⟩
    exact .record h

theorem admits_named {name description : String} :
    Admits (.named name description s) v ↔ Admits s v := by
  constructor
  · rintro ⟨⟩
    assumption
  · exact .named

/-- A member is as described if it is there when it has to be, and then has its form. -/
def AdmitsMember (info : MemberInfo) (s : Schema) (members : List (String × Json)) : Prop :=
  (info.required = true → ∃ x, (info.name, x) ∈ members) ∧
    ∀ x, (info.name, x) ∈ members → Admits s x

theorem admitsMembers_cons (h : (members.map Prod.fst).Nodup) :
    AdmitsMembers ((info, s) :: fields) members ↔
      AdmitsMember info s members ∧ AdmitsMembers fields members := by
  constructor
  · intro hadmits
    cases hadmits with
    | missing habsent hoptional hfields =>
      have hnone : ∀ x, (info.name, x) ∉ members := fun x hx =>
        Option.some_ne_none x (((Json.lookup_eq_some_iff_mem h).mpr hx).symm.trans habsent)
      refine ⟨⟨fun hrequired => ?_, fun x hx => absurd hx (hnone x)⟩, hfields⟩
      exact Bool.noConfusion (hrequired.symm.trans hoptional)
    | present hpresent hv hfields =>
      refine ⟨⟨fun _ => ⟨_, (Json.lookup_eq_some_iff_mem h).mp hpresent⟩, fun x hx => ?_⟩, hfields⟩
      have hx : members.lookup info.name = some x := (Json.lookup_eq_some_iff_mem h).mpr hx
      exact Option.some.inj (hpresent.symm.trans hx) ▸ hv
  · rintro ⟨⟨hrequired, hforms⟩, hfields⟩
    cases hlookup : members.lookup info.name with
    | none =>
      refine .missing hlookup (Bool.eq_false_iff.mpr fun hreq => ?_) hfields
      obtain ⟨x, hx⟩ := hrequired hreq
      exact Option.some_ne_none x (((Json.lookup_eq_some_iff_mem h).mpr hx).symm.trans hlookup)
    | some x =>
      exact .present hlookup (hforms x ((Json.lookup_eq_some_iff_mem h).mp hlookup)) hfields

/-- A record is as described if each of its members is. -/
theorem admitsMembers_iff (h : (members.map Prod.fst).Nodup) : AdmitsMembers fields members ↔
    ∀ f ∈ fields, AdmitsMember f.1 f.2 members := by
  induction fields with
  | nil => exact ⟨fun _ f hf => absurd hf List.not_mem_nil, fun _ => .nil⟩
  | cons f fields ih => rw [admitsMembers_cons h, ih, List.forall_mem_cons]

end ReleaseInstaller.Schema
