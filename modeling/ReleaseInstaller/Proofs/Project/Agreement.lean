import ReleaseInstaller.Project.Schema
import ReleaseInstaller.Proofs.Dictionary
import ReleaseInstaller.Proofs.Json.Admission
import ReleaseInstaller.Proofs.Json.Place
import ReleaseInstaller.Proofs.Project.Reading

/-! When a reader of values agrees with a schema of them, for the values that descriptions have and for
the fields of their records. -/
namespace ReleaseInstaller
open Json Schema

variable {β : Type}

/-- A reader agrees with a schema: what is admitted is read and shows in the result, and what is read
is admitted unless one of the places `numerals` holds an integer. Records stand at the places
`records`; the reader takes them also in the form of arrays, which the schema does not have. -/
structure Agrees (s : Schema) (read : Json → Option β) (shows : Json → β → Prop)
    (records numerals : List (List Step)) : Prop where
  reads : ∀ v, v.HasDistinctKeys → Admits s v → ∃ x, read v = some x ∧ shows v x
  admits_iff : ∀ v x, v.HasDistinctKeys → v.AllAt records IsObject → read v = some x →
    (Admits s v ↔ v.AllAt numerals IsNoInteger)

/-- A text shows as it is. -/
def ShowsText (v : Json) (s : String) : Prop := v = text s

/-- A truth value shows as it is. -/
def ShowsTruth (v : Json) (b : Bool) : Prop := v = bool b

/-- An optional text shows as it is, and none for `null`. -/
def ShowsOptional (v : Json) (o : Option String) : Prop := v = o.elim null text

/-- The items of an array show one by one. -/
def ShowsList (shows : Json → β → Prop) (v : Json) (l : List β) : Prop :=
  ∃ items, v = array items ∧ List.Forall₂ shows items l

/-- The members of an object show as the entries of a map. -/
def ShowsDictionary (v : Json) (d : Dictionary) : Prop :=
  ∃ members, v = object members ∧
    ∀ key value, (key, value) ∈ d.entries ↔ (key, text value) ∈ members

section Values
variable {s : Schema} {read : Json → Option β} {shows : Json → β → Prop}
  {records numerals : List (List Step)}

theorem agrees_text : Agrees .text text? ShowsText [] [] where
  reads := by
    intro v _ hadmits
    obtain ⟨s, rfl⟩ := admits_text.mp hadmits
    exact ⟨s, rfl, rfl⟩
  admits_iff := by
    intro v s _ _ hread
    exact iff_of_true (admits_text.mpr ⟨s, text?_eq_some_iff.mp hread⟩) allAt_nil

theorem agrees_textOrInteger : Agrees .text textOrInteger? ShowsText [] [[]] where
  reads := by
    intro v _ hadmits
    obtain ⟨s, rfl⟩ := admits_text.mp hadmits
    exact ⟨s, rfl, rfl⟩
  admits_iff := by
    intro v s _ _ hread
    rw [admits_text, allAt_here]
    cases v with
    | text s => exact iff_of_true ⟨s, rfl⟩ nofun
    | integer n => exact iff_of_false nofun fun h => h n rfl
    | _ => cases hread

theorem agrees_truth : Agrees .truth bool? ShowsTruth [] [] where
  reads := by
    intro v _ hadmits
    obtain ⟨b, rfl⟩ := admits_truth.mp hadmits
    exact ⟨b, rfl, rfl⟩
  admits_iff := by
    intro v b _ _ hread
    exact iff_of_true (admits_truth.mpr ⟨b, bool?_eq_some_iff.mp hread⟩) allAt_nil

/-- `null` is admitted and read besides what is admitted and read as a text. -/
theorem Agrees.optional {read : Json → Option String}
    (h : Agrees .text read ShowsText [] numerals) :
    Agrees .optionalText (optional? read) ShowsOptional [] numerals where
  reads := by
    intro v hkeys hadmits
    rcases admits_optionalText.mp hadmits with rfl | ⟨s, rfl⟩
    · exact ⟨none, rfl, rfl⟩
    · obtain ⟨x, hread, hshows⟩ := h.reads (text s) hkeys (.text s)
      exact ⟨some x, congrArg (Option.map some) hread, hshows⟩
  admits_iff := by
    intro v o hkeys hobjects hread
    by_cases hnull : v = null
    · -- Nothing stands in `null` but itself, which is no integer.
      subst hnull
      refine iff_of_true .noText fun place _ w hw => ?_
      cases hw
      exact nofun
    · rw [optional?_of_ne_null hnull] at hread
      obtain ⟨s, hs, rfl⟩ := Option.map_eq_some_iff.mp hread
      rw [← h.admits_iff v s hkeys hobjects hs, admits_text, admits_optionalText]
      exact or_iff_right hnull

theorem Agrees.list (h : Agrees s read shows records numerals) :
    Agrees (.list s) (valueReader.list? read) (ShowsList shows) (inItems records)
      (inItems numerals) where
  reads := by
    intro v hkeys hadmits
    obtain ⟨items, rfl, hitems⟩ := admits_list.mp hadmits
    have hread : ∀ w ∈ items, ∃ x, read w = some x ∧ shows w x := fun w hw =>
      h.reads w (hasDistinctKeys_array.mp hkeys w hw) (hitems w hw)
    obtain ⟨l, hl⟩ := exists_forall₂_iff.mpr hread
    exact ⟨l, list?_eq_some_iff.mpr ⟨items, rfl, hl.imp fun _ _ => And.left⟩,
      items, rfl, hl.imp fun _ _ => And.right⟩
  admits_iff := by
    intro v l hkeys hobjects hread
    obtain ⟨items, hitems, hall⟩ := list?_eq_some_iff.mp hread
    obtain rfl := items?_eq_some_iff.mp hitems
    have hread := exists_forall₂_iff.mp ⟨l, hall⟩
    have hitem : ∀ w ∈ items, Admits s w ↔ w.AllAt numerals IsNoInteger := by
      intro w hw
      obtain ⟨x, hx⟩ := hread w hw
      exact h.admits_iff w x (hasDistinctKeys_array.mp hkeys w hw) (allAt_inItems.mp hobjects w hw) hx
    rw [admits_list, allAt_inItems]
    constructor
    · rintro ⟨vs, hvs, hadmits⟩ w hw
      obtain rfl := array.inj hvs
      exact (hitem w hw).mp (hadmits w hw)
    · intro hnumerals
      exact ⟨items, rfl, fun w hw => (hitem w hw).mpr (hnumerals w hw)⟩

/-- The members that show an entry of a map. -/
def entryMember (e : String × String) : String × Json := (e.1, text e.2)

theorem forall₂_entryMember_iff {members : List (String × Json)}
    {entries : List (String × String)} :
    List.Forall₂ (fun m e => m = entryMember e) members entries ↔
      members = entries.map entryMember := by
  rw [← List.forall₂_map_right_iff (R := Eq), List.forall₂_eq_eq_eq]

/-- What is read as a map is an object with the entries that were read. -/
theorem dictionary?_eq_some_iff_map {v : Json} {d : Dictionary} :
    valueReader.dictionary? v = some d ↔
      ∃ entries, v = object (entries.map entryMember) ∧
        Dictionary.ofList entries = d := by
  rw [dictionary?_eq_some_iff]
  have hentry : ∀ (m : String × Json) (e : String × String),
      (valueReader.text? m.2).map (fun value => (m.1, value)) = some e ↔ m = entryMember e := by
    rintro ⟨key, w⟩ ⟨key', value⟩
    rw [Option.map_eq_some_iff, valueReader_text?]
    simp only [text?_eq_some_iff, entryMember, Prod.mk.injEq]
    constructor
    · rintro ⟨_, rfl, rfl, rfl⟩
      exact ⟨rfl, rfl⟩
    · rintro ⟨rfl, rfl⟩
      exact ⟨_, rfl, rfl, rfl⟩
  simp only [hentry, valueReader_entries?, members?_eq_some_iff, forall₂_entryMember_iff]
  constructor
  · rintro ⟨_, rfl, entries, rfl, hd⟩
    exact ⟨entries, rfl, hd⟩
  · rintro ⟨entries, rfl, hd⟩
    exact ⟨_, rfl, entries, rfl, hd⟩

theorem agrees_dictionary :
    Agrees (.map .text) valueReader.dictionary? ShowsDictionary [] [] where
  reads := by
    intro v hkeys hadmits
    obtain ⟨members, rfl, htexts⟩ := admits_map.mp hadmits
    have hentries : ∀ m ∈ members, ∃ e, m = entryMember e := by
      intro m hm
      obtain ⟨s, hs⟩ := admits_text.mp (htexts m hm)
      exact ⟨(m.1, s), Prod.ext rfl hs⟩
    obtain ⟨entries, hall⟩ := exists_forall₂_iff.mpr hentries
    obtain rfl := forall₂_entryMember_iff.mp hall
    have hnodup : (entries.map Prod.fst).Nodup := by
      have hmembers := hkeys.nodup
      rw [List.map_map] at hmembers
      exact hmembers
    have hinjective : Function.Injective entryMember := by
      rintro ⟨key, value⟩ ⟨key', value'⟩ h
      simpa [entryMember] using h
    refine ⟨_, dictionary?_eq_some_iff_map.mpr ⟨entries, rfl, rfl⟩, _, rfl, fun key value => ?_⟩
    rw [Dictionary.mem_entries_ofList_iff hnodup]
    exact (List.mem_map_of_injective hinjective (a := (key, value))).symm
  admits_iff := by
    intro v d _ _ hread
    obtain ⟨entries, rfl, -⟩ := dictionary?_eq_some_iff_map.mp hread
    refine iff_of_true (admits_map.mpr ⟨_, rfl, fun m hm => ?_⟩) allAt_nil
    obtain ⟨e, -, rfl⟩ := List.mem_map.mp hm
    exact .text e.2

end Values

section Members
variable {s : Schema} {read : Json → Option β} {shows : Json → β → Prop}
  {records numerals : List (List Step)} {members : List (String × Json)} {key : String} {x : β}

theorem admitsMember_optional {description : String} {fallback : Option Json} :
    AdmitsMember (Project.optionalMemberInfo key description fallback) s members ↔
      (object members).Under key (Admits s) := by
  rw [under_object]
  exact and_iff_right fun h => Bool.noConfusion h

theorem admitsMember_required {description : String} :
    AdmitsMember ⟨key, description, true, none⟩ s members ↔
      (∃ w, (key, w) ∈ members) ∧ (object members).Under key (Admits s) := by
  rw [under_object]
  exact and_congr_left fun _ => forall_prop_of_true rfl

/-- A field takes the value of its member, or its default. -/
theorem withDefault_lookup_eq_some_iff {value : β} (h : (members.map Prod.fst).Nodup) :
    ValueReader.withDefault value read (members.lookup key) = some x ↔
      ((∀ w, (key, w) ∉ members) ∧ value = x) ∨ ∃ w, (key, w) ∈ members ∧ read w = some x := by
  rw [withDefault_eq_some_iff]
  simp only [lookup_eq_some_iff_mem h, Option.eq_none_iff_forall_ne_some, ne_eq]

theorem Agrees.exists_withDefault (h : Agrees s read shows records numerals)
    (hkeys : (object members).HasDistinctKeys) (hadmits : (object members).Under key (Admits s))
    (value : β) : ∃ x, ValueReader.withDefault value read (members.lookup key) = some x ∧
      (object members).Under key (shows · x) := by
  obtain ⟨hnodup, hvalues⟩ := hasDistinctKeys_object.mp hkeys
  simp only [withDefault_lookup_eq_some_iff hnodup, under_object] at hadmits ⊢
  by_cases hthere : ∃ w, (key, w) ∈ members
  · obtain ⟨w, hw⟩ := hthere
    obtain ⟨x, hread, hshows⟩ := h.reads w (hvalues _ hw) (hadmits w hw)
    refine ⟨x, .inr ⟨w, hw, hread⟩, fun w' hw' => ?_⟩
    exact eq_of_mem_of_mem hnodup hw hw' ▸ hshows
  · have habsent : ∀ w, (key, w) ∉ members := not_exists.mp hthere
    exact ⟨value, .inl ⟨habsent, rfl⟩, fun w hw => absurd hw (habsent w)⟩

theorem Agrees.under_admits_iff (h : Agrees s read shows records numerals) {value : β}
    (hkeys : (object members).HasDistinctKeys)
    (hobjects : (object members).AllAt (inMember key records) IsObject)
    (hread : ValueReader.withDefault value read (members.lookup key) = some x) :
    (object members).Under key (Admits s) ↔
      (object members).AllAt (inMember key numerals) IsNoInteger := by
  obtain ⟨hnodup, hvalues⟩ := hasDistinctKeys_object.mp hkeys
  rw [allAt_inMember, under_object] at hobjects ⊢
  rw [under_object]
  refine forall₂_congr fun w hw => ?_
  rcases (withDefault_lookup_eq_some_iff hnodup).mp hread with ⟨habsent, -⟩ | ⟨w', hw', hread⟩
  · exact absurd hw (habsent w)
  · obtain rfl := eq_of_mem_of_mem hnodup hw' hw
    exact h.admits_iff w' x (hvalues _ hw) (hobjects w' hw) hread

/-- A field without a default takes the value of its member, which has to be there. -/
theorem bind_lookup_eq_some_iff (h : (members.map Prod.fst).Nodup) (value : β) :
    (members.lookup key).bind read = some x ↔ (∃ w, (key, w) ∈ members) ∧
      ValueReader.withDefault value read (members.lookup key) = some x := by
  simp only [← lookup_eq_some_iff_mem h]
  cases members.lookup key <;> simp [ValueReader.withDefault]

theorem Agrees.exists_required (h : Agrees s read shows records numerals)
    (hkeys : (object members).HasDistinctKeys) (hthere : ∃ w, (key, w) ∈ members)
    (hadmits : (object members).Under key (Admits s)) :
    ∃ x, (members.lookup key).bind read = some x ∧ (object members).Under key (shows · x) := by
  obtain ⟨w, hw⟩ := hthere
  obtain ⟨value, -, -⟩ :=
    h.reads w ((hasDistinctKeys_object.mp hkeys).2 _ hw) (under_object.mp hadmits w hw)
  obtain ⟨x, hx, hshows⟩ := h.exists_withDefault hkeys hadmits value
  exact ⟨x, (bind_lookup_eq_some_iff hkeys.nodup value).mpr ⟨⟨w, hw⟩, hx⟩, hshows⟩

/-- A record agrees if it does as an object without a key twice. -/
theorem Agrees.record {fields : List (MemberInfo × Schema)} {names : List String}
    {given : (String → Option Json) → β → Prop}
    (hread : ∀ v x, read v = some x ↔ ∃ get, valueReader.record? names v = some get ∧ given get x)
    (hreads : ∀ members, (object members).HasDistinctKeys →
      (∀ f ∈ fields, AdmitsMember f.1 f.2 members) →
        ∃ x, given (fun field => members.lookup field) x ∧ shows (object members) x)
    (hadmits : ∀ members x, (object members).HasDistinctKeys →
      (object members).AllAt records IsObject → given (fun field => members.lookup field) x →
        ((∀ f ∈ fields, AdmitsMember f.1 f.2 members) ↔
          (object members).AllAt numerals IsNoInteger)) :
    Agrees (.record fields) read shows ([] :: records) numerals where
  reads := by
    intro v hkeys h
    obtain ⟨members, rfl, hfields⟩ := admits_record.mp h
    obtain ⟨x, hx, hshows⟩ := hreads members hkeys ((admitsMembers_iff hkeys.nodup).mp hfields)
    exact ⟨x, (hread _ x).mpr ⟨_, record?_of_nodup hkeys.nodup, hx⟩, hshows⟩
  admits_iff := by
    intro v x hkeys hobjects hx
    obtain ⟨hobject, hobjects⟩ := allAt_cons.mp hobjects
    obtain ⟨members, rfl⟩ := allAt_here.mp hobject
    obtain ⟨get, hget, hx⟩ := (hread _ x).mp hx
    obtain rfl := Option.some.inj ((record?_of_nodup hkeys.nodup).symm.trans hget)
    rw [← hadmits members x hkeys hobjects hx, admits_record, ← admitsMembers_iff hkeys.nodup]
    constructor
    · rintro ⟨members', hmembers, h⟩
      exact object.inj hmembers ▸ h
    · intro h
      exact ⟨members, rfl, h⟩

theorem Agrees.named {name description : String} (h : Agrees s read shows records numerals) :
    Agrees (.named name description s) read shows records numerals where
  reads v hkeys hadmits := h.reads v hkeys (admits_named.mp hadmits)
  admits_iff v x hkeys hobjects hread :=
    admits_named.trans (h.admits_iff v x hkeys hobjects hread)

end Members

end ReleaseInstaller
