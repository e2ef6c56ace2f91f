import Mathlib.Data.List.Basic
import Mathlib.Data.List.Induction
import ReleaseInstaller.Dictionary

/-! What dictionaries made from lists hold. -/
namespace ReleaseInstaller.Dictionary

variable {key value : String} {e x : String × String} {l : List (String × String)}

theorem insertEntry_of_lt (h : ∀ e ∈ l, e.1 < key) :
    insertEntry key value l = l ++ [(key, value)] := by
  induction l with
  | nil => rfl
  | cons e rest ih =>
    obtain ⟨he, hrest⟩ := List.forall_mem_cons.mp h
    have hge : ¬ key < e.1 := fun hlt => String.lt_irrefl key (String.lt_trans hlt he)
    have hne : key ≠ e.1 := fun heq => String.lt_irrefl key (heq ▸ he)
    rw [insertEntry, if_neg hge, if_neg hne, ih hrest, List.cons_append]

/-- Entries that come in the order of their keys, and after those that are there, are added at the
end. -/
theorem entries_foldl_insert (l : List (String × String)) (d : Dictionary)
    (h : (d.entries ++ l).Pairwise fun a b => a.1 < b.1) :
    (l.foldl (fun d e => d.insert e.1 e.2) d).entries = d.entries ++ l := by
  induction l generalizing d with
  | nil => rw [List.foldl_nil, List.append_nil]
  | cons e rest ih =>
    have hlt : ∀ x ∈ d.entries, x.1 < e.1 := fun x hx =>
      (List.pairwise_append.mp h).2.2 x hx e List.mem_cons_self
    have hinsert : (d.insert e.1 e.2).entries = d.entries ++ [e] := insertEntry_of_lt hlt
    have hsplit : (d.insert e.1 e.2).entries ++ rest = d.entries ++ e :: rest := by
      rw [hinsert, List.append_assoc, List.singleton_append]
    rw [List.foldl_cons, ih _ (hsplit ▸ h), hsplit]

/-- The entries of a dictionary make the dictionary again. -/
theorem ofList_entries (d : Dictionary) : ofList d.entries = d :=
  Dictionary.ext (entries_foldl_insert d.entries ∅ d.sorted)

theorem mem_insertEntry_iff (h : ∀ e ∈ l, key ≠ e.1) :
    x ∈ insertEntry key value l ↔ x = (key, value) ∨ x ∈ l := by
  induction l with
  | nil => simp [insertEntry]
  | cons e rest ih =>
    obtain ⟨hne, hrest⟩ := List.forall_mem_cons.mp h
    rw [insertEntry, if_neg hne]
    split
    · exact List.mem_cons
    · rw [List.mem_cons, ih hrest, List.mem_cons]
      exact or_left_comm

theorem mem_foldl_insert_iff (l : List (String × String)) (d : Dictionary)
    (hnew : ∀ e ∈ l, ∀ y ∈ d.entries, e.1 ≠ y.1) (h : (l.map Prod.fst).Nodup) :
    x ∈ (l.foldl (fun d e => d.insert e.1 e.2) d).entries ↔ x ∈ l ∨ x ∈ d.entries := by
  induction l generalizing d with
  | nil => simp
  | cons e rest ih =>
    obtain ⟨hfirst, hnodup⟩ := List.nodup_cons.mp h
    obtain ⟨hnew, hnewRest⟩ := List.forall_mem_cons.mp hnew
    have hinsert : ∀ y, y ∈ (d.insert e.1 e.2).entries ↔ y = e ∨ y ∈ d.entries := fun y =>
      mem_insertEntry_iff hnew
    rw [List.foldl_cons, ih, hinsert, List.mem_cons]
    · exact or_left_comm.trans or_assoc.symm
    · intro a ha y hy
      rcases (hinsert y).mp hy with rfl | hy
      · exact fun heq => hfirst (heq ▸ List.mem_map_of_mem ha)
      · exact hnewRest a ha y hy
    · exact hnodup

/-- Without a key twice, every entry of a list counts. -/
theorem mem_entries_ofList_iff (h : (l.map Prod.fst).Nodup) : x ∈ (ofList l).entries ↔ x ∈ l := by
  have hnew : ∀ e ∈ l, ∀ y ∈ (∅ : Dictionary).entries, e.1 ≠ y.1 := fun _ _ _ hy =>
    absurd hy List.not_mem_nil
  rw [ofList, mem_foldl_insert_iff l ∅ hnew h]
  exact or_iff_left List.not_mem_nil

section Lookup
variable {α β : Type} [BEq α] [LawfulBEq α]

theorem lookup_cons_eq_ite [DecidableEq α] (e : α × β) (l : List (α × β)) (k : α) :
    (e :: l).lookup k = if k = e.1 then some e.2 else l.lookup k := by
  obtain ⟨key, value⟩ := e
  rw [List.lookup_cons]
  cases hk : k == key with
  | true => rw [if_pos (eq_of_beq hk)]
  | false => rw [if_neg (ne_of_beq_false hk)]

theorem lookup_filter_ne {k key : α} (h : k ≠ key) (l : List (α × β)) :
    (l.filter fun x => x.1 != key).lookup k = l.lookup k := by
  induction l with
  | nil => rfl
  | cons x l ih =>
    by_cases hx : x.1 = key
    · have hk : (k == x.1) = false := by simpa [hx] using h
      rw [List.filter_cons, hx, bne_self_eq_false, if_neg (by simp), ih, List.lookup_cons, hk]
    · rw [List.filter_cons, if_pos (bne_iff_ne.mpr hx), List.lookup_cons, List.lookup_cons, ih]

end Lookup

/-- An entry is found under its key, and other keys find what they found before. -/
theorem lookup_insertEntry (key value : String) (l : List (String × String)) (k : String) :
    (insertEntry key value l).lookup k = if k = key then some value else l.lookup k := by
  induction l with
  | nil => rw [insertEntry, lookup_cons_eq_ite]
  | cons e rest ih =>
    rw [insertEntry]
    split
    · rw [lookup_cons_eq_ite]
    · split
      · rename_i heq
        rw [lookup_cons_eq_ite, lookup_cons_eq_ite e, ← heq]
        split <;> rfl
      · rename_i hne
        rw [lookup_cons_eq_ite, ih, lookup_cons_eq_ite e]
        by_cases hk : k = e.1
        · have hkey : k ≠ key := fun h => hne (h ▸ hk)
          rw [if_pos hk, if_neg hkey, if_pos hk]
        · rw [if_neg hk, if_neg hk]

theorem find?_insert (d : Dictionary) (key value k : String) :
    (d.insert key value).find? k = if k = key then some value else d.find? k :=
  lookup_insertEntry key value d.entries k

/-- Of the entries of a list that have the same key, the last one is found. -/
theorem find?_ofList (l : List (String × String)) (k : String) :
    (ofList l).find? k = (l.filter (·.1 = k)).getLast?.map Prod.snd := by
  induction l using List.reverseRecOn with
  | nil => rfl
  | append_singleton l e ih =>
    have hlast : ofList (l ++ [e]) = (ofList l).insert e.1 e.2 := List.foldl_concat ..
    rw [hlast, find?_insert, ih, List.filter_append]
    by_cases hk : e.1 = k
    · simp [hk]
    · simp [hk, Ne.symm hk]

end ReleaseInstaller.Dictionary
