/-! Maps from strings to strings, kept in the order of their keys. -/
namespace ReleaseInstaller

/-- Entries with strictly increasing keys. -/
@[ext] structure Dictionary where
  entries : List (String × String)
  sorted : entries.Pairwise fun a b => a.1 < b.1
  deriving DecidableEq, Repr

namespace Dictionary

instance : EmptyCollection Dictionary := ⟨⟨[], .nil⟩⟩

instance : Inhabited Dictionary := ⟨∅⟩

def isEmpty (d : Dictionary) : Bool := d.entries.isEmpty

/-- Puts an entry in its place, instead of an earlier one with the same key. -/
def insertEntry (key value : String) : List (String × String) → List (String × String)
  | [] => [(key, value)]
  | e :: rest =>
    if key < e.1 then (key, value) :: e :: rest
    else if key = e.1 then (key, value) :: rest
    else e :: insertEntry key value rest

theorem mem_insertEntry {key value : String} {l : List (String × String)} {x : String × String}
    (h : x ∈ insertEntry key value l) : x = (key, value) ∨ x ∈ l := by
  induction l with
  | nil => simpa [insertEntry] using h
  | cons e rest ih =>
    simp only [insertEntry] at h
    split at h
    · simpa using h
    · split at h
      · simp only [List.mem_cons] at h ⊢
        rcases h with h | h
        · exact .inl h
        · exact .inr (.inr h)
      · simp only [List.mem_cons] at h ⊢
        rcases h with h | h
        · exact .inr (.inl h)
        · rcases ih h with h | h
          · exact .inl h
          · exact .inr (.inr h)

theorem lt_of_not_lt_of_ne {a b : String} (h : ¬ a < b) (hne : a ≠ b) : b < a := by
  rcases Decidable.em (b < a) with hb | hb
  · exact hb
  · exact absurd (String.le_antisymm (String.not_lt.mp hb) (String.not_lt.mp h)) hne

theorem pairwise_insertEntry {l : List (String × String)} (key value : String)
    (h : l.Pairwise fun a b => a.1 < b.1) :
    (insertEntry key value l).Pairwise fun a b => a.1 < b.1 := by
  induction l with
  | nil => simp [insertEntry]
  | cons e rest ih =>
    obtain ⟨he, hrest⟩ := List.pairwise_cons.mp h
    simp only [insertEntry]
    split
    · next hlt =>
      refine List.pairwise_cons.mpr ⟨?_, h⟩
      intro x hx
      rcases List.mem_cons.mp hx with rfl | hx
      · exact hlt
      · exact String.lt_trans hlt (he x hx)
    · next hlt =>
      split
      · next heq =>
        subst heq
        exact List.pairwise_cons.mpr ⟨he, hrest⟩
      · next hne =>
        refine List.pairwise_cons.mpr ⟨?_, ih hrest⟩
        intro x hx
        rcases mem_insertEntry hx with rfl | hx
        · exact lt_of_not_lt_of_ne hlt hne
        · exact he x hx

def insert (d : Dictionary) (key value : String) : Dictionary :=
  ⟨insertEntry key value d.entries, pairwise_insertEntry key value d.sorted⟩

/-- The entries of a list; of two with the same key the later one counts. -/
def ofList (l : List (String × String)) : Dictionary :=
  l.foldl (fun d e => d.insert e.1 e.2) ∅

def find? (d : Dictionary) (key : String) : Option String := d.entries.lookup key

def keys (d : Dictionary) : List String := d.entries.map Prod.fst

def values (d : Dictionary) : List String := d.entries.map Prod.snd

end Dictionary

end ReleaseInstaller
