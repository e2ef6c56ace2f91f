import Mathlib.Data.List.Nodup
import ReleaseInstaller.Json.Basic

/-! Places in documents, and what documents hold there. -/
namespace ReleaseInstaller.Json

/-- A step from a value into one of its parts. -/
inductive Step where
  | member (key : String)
  /-- Into any of the items of an array. -/
  | item
  deriving DecidableEq, Repr

/-- `v.Holds place w`: the value `w` stands in `v` at the place. -/
inductive Holds : Json → List Step → Json → Prop where
  | here (v : Json) : Holds v [] v
  | member {members : List (String × Json)} {key : String} {v w : Json} {place : List Step}
      (hmem : (key, v) ∈ members) (h : Holds v place w) :
      Holds (object members) (.member key :: place) w
  | item {items : List Json} {v w : Json} {place : List Step}
      (hmem : v ∈ items) (h : Holds v place w) : Holds (array items) (.item :: place) w

/-- Whatever stands at one of the places is as said. -/
def AllAt (v : Json) (places : List (List Step)) (P : Json → Prop) : Prop :=
  ∀ place ∈ places, ∀ w, v.Holds place w → P w

/-- What stands under a key of the document, if anything, is as said. -/
def Under (v : Json) (key : String) (P : Json → Prop) : Prop := ∀ w, v.Holds [.member key] w → P w

/-- Places in the values under a key. -/
def inMember (key : String) (places : List (List Step)) : List (List Step) :=
  places.map (.member key :: ·)

/-- Places in the items of an array. -/
def inItems (places : List (List Step)) : List (List Step) := places.map (.item :: ·)

/-- No object in the document has a key twice. -/
def HasDistinctKeys (v : Json) : Prop :=
  ∀ place members, v.Holds place (object members) → (members.map Prod.fst).Nodup

def IsObject (v : Json) : Prop := ∃ members, v = object members

def IsNoInteger (v : Json) : Prop := ∀ n, v ≠ integer n

variable {v w : Json} {members : List (String × Json)} {items : List Json} {key : String}
  {place : List Step} {places places' : List (List Step)} {P : Json → Prop}

theorem holds_here : v.Holds [] w ↔ v = w := by
  constructor
  · rintro ⟨⟩
    rfl
  · rintro rfl
    exact .here v

theorem holds_member :
    (object members).Holds (.member key :: place) w ↔ ∃ v, (key, v) ∈ members ∧ v.Holds place w := by
  constructor
  · rintro ⟨⟩
    exact ⟨_, ‹_›, ‹_›⟩
  · rintro ⟨v, hmem, h⟩
    exact .member hmem h

theorem holds_item : (array items).Holds (.item :: place) w ↔ ∃ v ∈ items, v.Holds place w := by
  constructor
  · rintro ⟨⟩
    exact ⟨_, ‹_›, ‹_›⟩
  · rintro ⟨v, hmem, h⟩
    exact .item hmem h

theorem allAt_nil : v.AllAt [] P := by
  intro place hplace
  exact absurd hplace List.not_mem_nil

theorem allAt_here : v.AllAt [[]] P ↔ P v := by
  simp [AllAt, holds_here]

theorem allAt_append : v.AllAt (places ++ places') P ↔ v.AllAt places P ∧ v.AllAt places' P :=
  List.forall_mem_append

theorem allAt_cons : v.AllAt (place :: places) P ↔ v.AllAt [place] P ∧ v.AllAt places P := by
  rw [← allAt_append, List.singleton_append]

theorem AllAt.subset (h : v.AllAt places P) (hsub : places' ⊆ places) : v.AllAt places' P :=
  fun place hplace => h place (hsub hplace)

theorem under_object : (object members).Under key P ↔ ∀ w, (key, w) ∈ members → P w := by
  simp [Under, holds_member, holds_here]

theorem allAt_inMember : (object members).AllAt (inMember key places) P ↔
    (object members).Under key (·.AllAt places P) := by
  rw [under_object]
  constructor
  · intro h v hmem place hplace w hw
    exact h _ (List.mem_map_of_mem hplace) w (.member hmem hw)
  · intro h place hplace w hw
    obtain ⟨rest, hrest, rfl⟩ := List.mem_map.mp hplace
    obtain ⟨v, hmem, hw⟩ := holds_member.mp hw
    exact h v hmem rest hrest w hw

theorem allAt_inItems : (array items).AllAt (inItems places) P ↔
    ∀ v ∈ items, v.AllAt places P := by
  constructor
  · intro h v hmem place hplace w hw
    exact h _ (List.mem_map_of_mem hplace) w (.item hmem hw)
  · intro h place hplace w hw
    obtain ⟨rest, hrest, rfl⟩ := List.mem_map.mp hplace
    obtain ⟨v, hmem, hw⟩ := holds_item.mp hw
    exact h v hmem rest hrest w hw

theorem hasDistinctKeys_object : (object members).HasDistinctKeys ↔
    (members.map Prod.fst).Nodup ∧ ∀ m ∈ members, m.2.HasDistinctKeys := by
  constructor
  · intro h
    exact ⟨h [] members (.here _), fun m hm place inner hinner => h _ inner (.member hm hinner)⟩
  · rintro ⟨hkeys, h⟩ place inner hinner
    cases hinner with
    | here => exact hkeys
    | member hmem hinner => exact h _ hmem _ _ hinner

theorem HasDistinctKeys.nodup (h : (object members).HasDistinctKeys) :
    (members.map Prod.fst).Nodup :=
  h [] members (.here _)

theorem hasDistinctKeys_array :
    (array items).HasDistinctKeys ↔ ∀ v ∈ items, v.HasDistinctKeys := by
  constructor
  · intro h v hv place inner hinner
    exact h _ inner (.item hv hinner)
  · intro h place inner hinner
    cases hinner with
    | item hmem hinner => exact h _ hmem _ _ hinner

/-- What has no parts has no keys. -/
theorem hasDistinctKeys_of_ne (harray : ∀ items, v ≠ array items)
    (hobject : ∀ members, v ≠ object members) : v.HasDistinctKeys := by
  intro place inner hinner
  cases hinner with
  | here => exact absurd rfl (hobject inner)
  | member => exact absurd rfl (hobject _)
  | item => exact absurd rfl (harray _)

end ReleaseInstaller.Json
