import Mathlib.Logic.Relation
import ReleaseInstaller.Proofs.Json.Change
import ReleaseInstaller.Proofs.Project.Reading

/-! Changes in documents that a reader does not see, and values that it does not take. A change below
a field of a record, or in an item of a list, is overlooked if the reader of the field or of the items
overlooks it; and what that reader refuses, the record or the list refuses. -/
namespace ReleaseInstaller.Json
open ValueReader

/-- A kind of change: where it is made, and what may come of what stands there. -/
structure Change where
  place : List Step
  relation : Json → Json → Prop

namespace Change

def Makes (c : Change) (v v' : Json) : Prop := ChangedAt c.relation c.place v v'

/-- The change seen from one step further out. -/
def below (step : Step) (c : Change) : Change := ⟨step :: c.place, c.relation⟩

/-- Changes in what stands under the fields of a record. -/
def inFields (parts : List (String × List Change)) : List Change :=
  parts.flatMap fun part => part.2.map (below (.member part.1))

end Change

variable {β : Type} {read : Json → Option β} {changes : List Change} {names : List String}
  {parts : List (String × List Change)} {field : String} {o o' : Option Json}

/-- What a reader reads it still reads after a change of one of the given kinds. -/
def Overlooks (read : Json → Option β) (changes : List Change) : Prop :=
  ∀ c ∈ changes, ∀ v v' x, c.Makes v v' → read v = some x → read v' = some x

theorem overlooks_append {changes' : List Change} :
    Overlooks read (changes ++ changes') ↔ Overlooks read changes ∧ Overlooks read changes' :=
  List.forall_mem_append

theorem Overlooks.subset {changes' : List Change} (h : Overlooks read changes)
    (hsub : changes' ⊆ changes) : Overlooks read changes' :=
  fun c hc => h c (hsub hc)

/-- What reads the same before and after a change does so too when the change is taken back. -/
theorem overlooks_here {R : Json → Json → Prop} (h : ∀ {v v'}, R v v' → read v = read v') :
    Overlooks read [⟨[], Relation.SymmGen R⟩] := by
  refine List.forall_mem_singleton.mpr fun v v' x hchange hread => ?_
  cases hchange with
  | here hR =>
    rcases hR with hR | hR
    · exact (h hR).symm.trans hread
    · exact (h hR).trans hread

/-- What can be read off all items can still be after a change in one of them that does not count. -/
theorem forall₂_of_change {R : Json → β → Prop} {v v' : Json} (hv : ∀ x, R v x → R v' x)
    (before after : List Json) {l : List β} (h : List.Forall₂ R (before ++ v :: after) l) :
    List.Forall₂ R (before ++ v' :: after) l := by
  induction before generalizing l with
  | nil =>
    cases h with
    | cons hx hrest => exact .cons (hv _ hx) hrest
  | cons w before ih =>
    cases h with
    | cons hx hrest => exact .cons hx (ih hrest)

theorem Overlooks.list (h : Overlooks read changes) :
    Overlooks (valueReader.list? read) (changes.map (Change.below .item)) := by
  intro _ hmem v v' l hchange hread
  obtain ⟨c, hc, rfl⟩ := List.mem_map.mp hmem
  cases hchange with
  | item before after hchange =>
    obtain ⟨items, hitems, hall⟩ := list?_eq_some_iff.mp hread
    obtain rfl := array.inj (items?_eq_some_iff.mp hitems)
    have hitem := fun x => h c hc _ _ x hchange
    exact list?_eq_some_iff.mpr ⟨_, rfl, forall₂_of_change hitem before after hall⟩

/-- After a change a record gives to a field what it gave before, or that value with one of the changes
made in it. -/
def Follows (parts : List (String × List Change)) (field : String) (o o' : Option Json) : Prop :=
  o' = o ∨ ∃ changes, (field, changes) ∈ parts ∧
    ∃ c ∈ changes, ∃ w w', o = some w ∧ o' = some w' ∧ c.Makes w w'

theorem follows_nil : Follows [] field o o' ↔ o' = o := by
  simp [Follows]

theorem Follows.withDefault {value x : β} (h : Follows parts field o o')
    (hparts : ∀ changes, (field, changes) ∈ parts → Overlooks read changes)
    (hread : ValueReader.withDefault value read o = some x) :
    ValueReader.withDefault value read o' = some x := by
  rcases h with rfl | ⟨changes, hmem, c, hc, w, w', rfl, rfl, hchange⟩
  · exact hread
  · exact hparts changes hmem c hc w w' x hchange hread

section Records
variable {given : (String → Option Json) → β → Prop}

/-- A reader of records overlooks what the readers of its fields do. -/
theorem Overlooks.fields
    (hread : ∀ v x, read v = some x ↔ ∃ get, valueReader.record? names v = some get ∧ given get x)
    (hgiven : ∀ get get' x, (∀ field ∈ names, Follows parts field (get field) (get' field)) →
      given get x → given get' x) : Overlooks read (Change.inFields parts) := by
  intro _ hmem v v' x hchange hx
  obtain ⟨get, hget, hx⟩ := (hread v x).mp hx
  obtain ⟨part, hpart, hmem⟩ := List.mem_flatMap.mp hmem
  obtain ⟨c, hc, rfl⟩ := List.mem_map.mp hmem
  obtain ⟨get', hget', hfields⟩ := record?_of_changedAt_member hchange hget
  refine (hread v' x).mpr ⟨get', hget', hgiven get get' x (fun field hfield => ?_) hx⟩
  rcases hfields field hfield with hsame | ⟨rfl, w, w', hw, hw', hchange⟩
  · exact .inl hsame
  · exact .inr ⟨part.2, hpart, c, hc, w, w', hw, hw', hchange⟩

/-- It also overlooks members that are none of its fields. -/
theorem Overlooks.record
    (hread : ∀ v x, read v = some x ↔ ∃ get, valueReader.record? names v = some get ∧ given get x)
    (hgiven : ∀ get get' x, (∀ field ∈ names, Follows parts field (get field) (get' field)) →
      given get x → given get' x) :
    Overlooks read (⟨[], IsExtended names⟩ :: Change.inFields parts) := by
  refine List.forall_mem_cons.mpr ⟨fun v v' x hchange hx => ?_, Overlooks.fields hread hgiven⟩
  cases hchange with
  | here hextended =>
    obtain ⟨get, hget, hx⟩ := (hread v x).mp hx
    obtain ⟨get', hget', hsame⟩ := record?_of_isExtended hextended hget
    exact (hread v' x).mpr ⟨get', hget', hgiven get get' x (fun field hfield =>
      .inl (hsame field hfield)) hx⟩

end Records

/-- A change that can be taken back makes no difference at all. -/
theorem Overlooks.eq_of_symmetric {c : Change} (h : Overlooks read changes) (hc : c ∈ changes)
    (hsymmetric : ∀ {v v'}, c.relation v v' → c.relation v' v) {v v' : Json} (hchange : c.Makes v v') :
    read v' = read v := by
  have hback : c.Makes v' v := hchange.symm hsymmetric
  refine Option.ext fun x => ⟨?_, ?_⟩
  · exact h c hc v' v x hback
  · exact h c hc v v' x hchange

/-- What a reader reads has, wherever it has a value at the place, one with the property. -/
def Demands (read : Json → Option β) (place : List Step) (P : Json → Prop) : Prop :=
  ∀ v x, read v = some x → ∀ w, v.Holds place w → P w

section Demands
variable {γ : Type} {readPart : Json → Option γ} {place : List Step} {P : Json → Prop}

theorem demands_here (h : ∀ v x, read v = some x → P v) : Demands read [] P := by
  intro v x hread w hw
  obtain rfl := holds_here.mp hw
  exact h v x hread

theorem Demands.list (h : Demands read place P) :
    Demands (valueReader.list? read) (.item :: place) P := by
  intro v l hread w hw
  obtain ⟨items, hitems, hall⟩ := list?_eq_some_iff.mp hread
  obtain rfl := items?_eq_some_iff.mp hitems
  obtain ⟨v, hv, hw⟩ := holds_item.mp hw
  obtain ⟨x, hx⟩ := exists_forall₂_iff.mp ⟨l, hall⟩ v hv
  exact h v x hx w hw

/-- A record demands under a field what the reader of the field does. -/
theorem Demands.member (h : Demands readPart place P) (hfield : field ∈ names)
    (hread : ∀ v x, read v = some x → ∃ get, valueReader.record? names v = some get ∧
      ∃ value part, ValueReader.withDefault value readPart (get field) = some part) :
    Demands read (.member field :: place) P := by
  intro v x hx w hw
  obtain ⟨get, hget, value, part, hpart⟩ := hread v x hx
  cases hw with
  | member hmem hw =>
    obtain ⟨hnodup, rfl⟩ := record?_object_eq_some_iff.mp hget
    have hlookup := (lookup_eq_some_iff_mem_of_known hnodup hfield).mpr hmem
    simp only [hlookup, withDefault] at hpart
    exact h _ _ hpart w hw

end Demands

end ReleaseInstaller.Json
