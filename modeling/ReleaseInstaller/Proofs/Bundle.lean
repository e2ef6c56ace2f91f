import ReleaseInstaller.Bundle
import ReleaseInstaller.Proofs.Dictionary
import ReleaseInstaller.Proofs.Text.Split

/-! Which template a key names. A loaded template is filed under the place of its source, and the key that
spells this place leads to it. A few other keys do as well, since the look-up passes over a part that
names a file and goes on in the directory where it is. -/
namespace ReleaseInstaller.Bundle
open Text

/-- The parts lead from a directory to an entry: all but the last name directories, each in the one
before it, and the last names the entry. -/
inductive Leads : Directory → List String → Entry → Prop
  | last {d : Directory} {part : String} {e : Entry} (h : d.lookup part = some e) : Leads d [part] e
  | enter {d entries : Directory} {part : String} {rest : List String} {e : Entry}
      (h : d.lookup part = some (.directory entries)) (hrest : Leads entries rest e) :
      Leads d (part :: rest) e

/-- What is left of the parts of a key without those that name a file although more parts follow. -/
inductive Overlooks : Directory → List String → List String → Prop
  | last (d : Directory) (part : String) : Overlooks d [part] [part]
  | enter {d entries : Directory} {part : String} {rest kept : List String}
      (h : d.lookup part = some (.directory entries)) (hrest : Overlooks entries rest kept) :
      Overlooks d (part :: rest) (part :: kept)
  | pass {d : Directory} {part : String} {f : File} {rest kept : List String}
      (h : d.lookup part = some (.file f)) (hrest : Overlooks d rest kept) :
      Overlooks d (part :: rest) kept

/-- The files in a directory, which itself lies at a place, know their names and their keys. -/
def IsFiled (place : List String) (d : Directory) : Prop :=
  ∀ before name f, Leads d (before ++ [name]) (.file f) →
    f = ⟨name, pathOf (place ++ (before ++ [name]))⟩

variable {d d' entries : Directory} {e : Entry} {f : File} {part : String}
  {ps kept place : List String}

section Key

theorem parts_ne_nil (key : String) : parts key ≠ [] := by
  simp [parts, splitAtAll_ne_nil]

theorem pathOf_parts (key : String) : pathOf (parts key) = key := by
  have hlists : (parts key).map String.toList = splitAtAll (· = '/') key.toList := by
    simp [parts, Function.comp_def]
  rw [← String.toList_inj, pathOf, String.toList_intercalate, hlists]
  exact intercalate_splitAtAll '/' key.toList

theorem not_mem_of_mem_parts {key : String} (h : part ∈ parts key) : '/' ∉ part.toList := by
  obtain ⟨piece, hpiece, rfl⟩ := List.mem_map.mp h
  rw [String.toList_ofList]
  exact not_mem_of_mem_splitAtAll hpiece

theorem parts_pathOf (hne : ps ≠ []) (h : ∀ part ∈ ps, '/' ∉ part.toList) :
    parts (pathOf ps) = ps := by
  have hpieces : ∀ piece ∈ ps.map String.toList, '/' ∉ piece := List.forall_mem_map.mpr h
  have hjoined : (pathOf ps).toList = ['/'].intercalate (ps.map String.toList) :=
    String.toList_intercalate
  rw [parts, hjoined, splitAtAll_intercalate (by simpa using hne) hpieces]
  simp [Function.comp_def]

end Key

section Walk

theorem Leads.ne_nil (h : Leads d ps e) : ps ≠ [] := by
  cases h <;> simp

theorem leads_singleton_iff : Leads d [part] e ↔ d.lookup part = some e := by
  refine ⟨fun h => ?_, .last⟩
  cases h with
  | last h => exact h
  | enter _ hrest => exact absurd rfl hrest.ne_nil

theorem leads_cons_iff (hne : ps ≠ []) : Leads d (part :: ps) e ↔
    ∃ entries, d.lookup part = some (.directory entries) ∧ Leads entries ps e := by
  constructor
  · intro h
    cases h with
    | last => contradiction
    | enter h hrest => exact ⟨_, h, hrest⟩
  · rintro ⟨entries, h, hrest⟩
    exact .enter h hrest

/-- Where a walk leads is decided by what its first part names. -/
theorem Leads.of_lookup (h : Leads d (part :: ps) e) (heq : d.lookup part = d'.lookup part) :
    Leads d' (part :: ps) e := by
  cases h with
  | last h => exact .last (heq ▸ h)
  | enter h hrest => exact .enter (heq ▸ h) hrest

theorem Overlooks.ne_nil (h : Overlooks d ps kept) : kept ≠ [] := by
  induction h with
  | last d part => simp
  | enter => simp
  | pass _ _ ih => exact ih

theorem Overlooks.left_ne_nil (h : Overlooks d ps kept) : ps ≠ [] := by
  cases h <;> simp

theorem Overlooks.subset (h : Overlooks d ps kept) : kept ⊆ ps := by
  induction h with
  | last d part => exact List.Subset.refl [part]
  | enter _ _ ih => exact List.cons_subset_cons _ ih
  | pass _ _ ih => exact List.subset_cons_of_subset _ ih

theorem Leads.overlooks (h : Leads d ps e) : Overlooks d ps ps := by
  induction h with
  | @last d part => exact .last d part
  | enter h _ ih => exact .enter h ih

/-- On the way to an entry there is nothing to pass over. -/
theorem Leads.eq_of_overlooks (h : Leads d ps e) (hkept : Overlooks d ps kept) : kept = ps := by
  induction hkept with
  | last d part => rfl
  | enter hdir hrest ih =>
    cases h with
    | last => cases hrest
    | enter hdir' hlater =>
      cases hdir.symm.trans hdir'
      rw [ih hlater]
  | pass hfile hrest =>
    cases h with
    | last => cases hrest
    | enter hdir => exact absurd (hfile.symm.trans hdir) (by simp)

end Walk

section Lookup

theorem follow?_singleton (d : Directory) (found : Option Entry) (part : String) :
    follow? d found [part] = d.lookup part := by
  rw [follow?]
  rcases d.lookup part with _ | f | entries <;> rfl

/-- The look-up follows the parts that are not passed over. -/
theorem follow?_eq_some_iff (hne : ps ≠ []) (found : Option Entry) :
    follow? d found ps = some e ↔ ∃ kept, Overlooks d ps kept ∧ Leads d kept e := by
  constructor
  · intro h
    -- The last part is a case of its own: what it names is found, be it a file or a directory.
    induction ps generalizing d found with
    | nil => contradiction
    | cons part rest ih =>
      by_cases hrest : rest = []
      · rw [hrest, follow?_singleton] at h
        exact ⟨[part], hrest ▸ .last d part, .last h⟩
      · rw [follow?] at h
        split at h
        · rename_i hdir
          obtain ⟨kept, hover, hleads⟩ := ih hrest _ h
          exact ⟨part :: kept, .enter hdir hover, .enter hdir hleads⟩
        · rename_i hfile
          obtain ⟨kept, hover, hleads⟩ := ih hrest _ h
          exact ⟨kept, .pass hfile hover, hleads⟩
        · contradiction
  · rintro ⟨kept, hover, hleads⟩
    induction hover generalizing found with
    | last d part =>
      rw [follow?_singleton]
      exact leads_singleton_iff.mp hleads
    | enter hdir hrest ih =>
      obtain ⟨entries, hdir', hlater⟩ := (leads_cons_iff hrest.ne_nil).mp hleads
      cases hdir.symm.trans hdir'
      simp only [follow?, hdir]
      exact ih hrest.left_ne_nil _ hlater
    | pass hfile hrest ih =>
      simp only [follow?, hfile]
      exact ih hrest.left_ne_nil _ hleads

theorem find?_eq_some_iff {key : String} :
    find? d key = some f ↔ ∃ kept, Overlooks d (parts key) kept ∧ Leads d kept (.file f) := by
  rw [← follow?_eq_some_iff (parts_ne_nil key) none, find?]
  split <;> simp_all

end Lookup

section Loading

theorem lookup_put (d : Directory) (name : String) (e : Entry) (part : String) :
    (put d name e).lookup part = if part = name then some e else d.lookup part := by
  rw [put, Dictionary.lookup_cons_eq_ite]
  split
  · rfl
  · rename_i hne
    exact Dictionary.lookup_filter_ne hne d

theorem isFiled_nil (place : List String) : IsFiled place [] := by
  intro before name f h
  cases before with
  | nil => exact absurd (leads_singleton_iff.mp h) (by simp)
  | cons part before =>
    obtain ⟨entries, hdir, -⟩ := (leads_cons_iff (by simp)).mp h
    exact absurd hdir (by simp)

theorem isFiled_file (place : List String) (name : String) :
    IsFiled place [(name, .file ⟨name, pathOf (place ++ [name])⟩)] := by
  intro before last f h
  cases before with
  | nil =>
    have hlookup := leads_singleton_iff.mp h
    rw [Dictionary.lookup_cons_eq_ite] at hlookup
    split at hlookup
    · rename_i hlast
      cases hlookup
      rw [hlast, List.nil_append]
    · contradiction
  | cons part before =>
    obtain ⟨entries, hdir, -⟩ := (leads_cons_iff (by simp)).mp h
    rw [Dictionary.lookup_cons_eq_ite] at hdir
    split at hdir <;> exact absurd hdir (by simp)

theorem isFiled_directory {name : String} (h : IsFiled (place ++ [name]) entries) :
    IsFiled place [(name, .directory entries)] := by
  intro before last f hleads
  cases before with
  | nil =>
    have hlookup := leads_singleton_iff.mp hleads
    rw [Dictionary.lookup_cons_eq_ite] at hlookup
    split at hlookup <;> exact absurd hlookup (by simp)
  | cons part before =>
    obtain ⟨inner, hdir, hlater⟩ := (leads_cons_iff (by simp)).mp hleads
    rw [Dictionary.lookup_cons_eq_ite] at hdir
    split at hdir
    · rename_i hpart
      cases hdir
      rw [h before last f hlater, hpart, List.append_assoc, List.singleton_append, List.cons_append]
    · contradiction

/-- An entry that is filed rightly by itself is so among others. -/
theorem IsFiled.put {name : String} (hd : IsFiled place d) (he : IsFiled place [(name, e)]) :
    IsFiled place (put d name e) := by
  intro before last f h
  obtain ⟨part, rest, hparts⟩ : ∃ part rest, before ++ [last] = part :: rest :=
    List.exists_cons_of_ne_nil (by simp)
  have hfiled : Leads [(name, e)] (part :: rest) (.file f) ∨ Leads d (part :: rest) (.file f) := by
    rw [hparts] at h
    by_cases hpart : part = name
    · exact .inl (h.of_lookup (by simp [lookup_put, Dictionary.lookup_cons_eq_ite, hpart]))
    · exact .inr (h.of_lookup (by rw [lookup_put, if_neg hpart]))
  rw [← hparts] at hfiled
  exact hfiled.elim (he before last f) (hd before last f)

mutual

/-- One source adds nothing but what is filed under its own place. -/
theorem IsFiled.of_load? {place : List String} {d d' : Directory} {s : Source}
    (hd : IsFiled place d) (h : s.load? place d = some d') : IsFiled place d' := by
  match s with
  | .file fileName =>
    rw [Source.load?] at h
    split at h
    · obtain rfl := Option.some.inj h
      exact hd
    · split at h
      · contradiction
      · obtain rfl := Option.some.inj h
        exact hd.put (isFiled_file place _)
  | .directory name sources =>
    rw [Source.load?] at h
    split at h
    · contradiction
    · rename_i hload
      obtain rfl := Option.some.inj h
      -- The inside is loaded by itself, into an empty directory one step further down.
      exact hd.put (isFiled_directory (IsFiled.of_loadAll? (isFiled_nil _) hload))

theorem IsFiled.of_loadAll? {place : List String} {d d' : Directory} {sources : List Source}
    (hd : IsFiled place d) (h : Source.loadAll? place d sources = some d') : IsFiled place d' := by
  match sources with
  | [] =>
    obtain rfl := Option.some.inj h
    exact hd
  | s :: rest =>
    rw [Source.loadAll?] at h
    split at h
    · contradiction
    · rename_i hload
      exact IsFiled.of_loadAll? (hd.of_load? hload) h

end

/-- What parts lead to in a loaded directory is filed under the key that consists of them. -/
theorem path_of_leads {sources : List Source} (hload : load? sources = some d)
    (h : Leads d ps (.file f)) : f.path = pathOf ps := by
  obtain ⟨before, name, rfl⟩ := (List.eq_nil_or_concat' ps).resolve_left h.ne_nil
  have hfiled : IsFiled [] d := (isFiled_nil []).of_loadAll? hload
  rw [hfiled before name f h, List.nil_append]

end Loading

/-- The look-up answers with the file at the end of the way that is left when parts are passed over that
name a file although more parts follow. Its path is the key exactly if nothing is passed over. So a
key gets an answer though it leads to no file only if it goes on past a file and ends at one. -/
theorem find?_exact {sources : List Source} (h : load? sources = some d) (key : String) :
    (∀ f, find? d key = some f ↔
      ∃ kept, Overlooks d (parts key) kept ∧ Leads d kept (.file f) ∧ f.path = pathOf kept) ∧
    (∀ f, find? d key = some f ∧ f.path = key ↔ Leads d (parts key) (.file f)) ∧
    ((∀ f, find? d key = some f ↔ Leads d (parts key) (.file f)) ↔
      ∀ kept f, Overlooks d (parts key) kept → Leads d kept (.file f) → kept = parts key) := by
  have hdirect : ∀ f, Leads d (parts key) (.file f) → find? d key = some f :=
    fun f hleads => find?_eq_some_iff.mpr ⟨parts key, hleads.overlooks, hleads⟩
  refine ⟨fun f => ?_, fun f => ?_, ?_⟩
  · rw [find?_eq_some_iff]
    constructor
    · rintro ⟨kept, hover, hleads⟩
      exact ⟨kept, hover, hleads, path_of_leads h hleads⟩
    · rintro ⟨kept, hover, hleads, -⟩
      exact ⟨kept, hover, hleads⟩
  · constructor
    · rintro ⟨hfind, hpath⟩
      obtain ⟨kept, hover, hleads⟩ := find?_eq_some_iff.mp hfind
      have hfree : ∀ part ∈ kept, '/' ∉ part.toList :=
        fun part hpart => not_mem_of_mem_parts (hover.subset hpart)
      rw [path_of_leads h hleads] at hpath
      rw [← hpath, parts_pathOf hover.ne_nil hfree]
      exact hleads
    · intro hleads
      exact ⟨hdirect f hleads, (path_of_leads h hleads).trans (pathOf_parts key)⟩
  · constructor
    · intro hclaim kept f hover hleads
      have hfind := find?_eq_some_iff.mpr ⟨kept, hover, hleads⟩
      exact ((hclaim f).mp hfind).eq_of_overlooks hover
    · intro honly f
      refine ⟨fun hfind => ?_, hdirect f⟩
      obtain ⟨kept, hover, hleads⟩ := find?_eq_some_iff.mp hfind
      rw [← honly kept f hover hleads]
      exact hleads

/-- Two templates and a file that is none, in a directory and a directory in it. -/
def shellSources : List Source :=
  [.directory "shell" [.file "install.sh.j2", .file "README.md",
    .directory "lib" [.file "log.sh.j2"]]]

def shellTemplates : Directory := (load? shellSources).getD []

/-- The key goes past a template to another one. -/
theorem find?_exact_past_file : load? shellSources = some shellTemplates ∧
    find? shellTemplates "shell/lib/log.sh" = some ⟨"log.sh", "shell/lib/log.sh"⟩ ∧
    find? shellTemplates "shell/install.sh/lib/log.sh" = some ⟨"log.sh", "shell/lib/log.sh"⟩ ∧
    Leads shellTemplates (parts "shell/lib/log.sh") (.file ⟨"log.sh", "shell/lib/log.sh"⟩) ∧
    ∀ f, ¬ Leads shellTemplates (parts "shell/install.sh/lib/log.sh") (.file f) := by
  have hsome : (load? shellSources).isSome = true := by decide +kernel
  obtain ⟨d, hd⟩ := Option.isSome_iff_exists.mp hsome
  have hload : load? shellSources = some shellTemplates := by rw [shellTemplates, hd, Option.getD_some]
  have hstraight : find? shellTemplates "shell/lib/log.sh" =
      some ⟨"log.sh", "shell/lib/log.sh"⟩ := by decide +kernel
  have hpast : find? shellTemplates "shell/install.sh/lib/log.sh" =
      some ⟨"log.sh", "shell/lib/log.sh"⟩ := by decide +kernel
  refine ⟨hload, hstraight, hpast, ?_, fun f hleads => ?_⟩
  · exact ((find?_exact hload "shell/lib/log.sh").2.1 _).mp ⟨hstraight, rfl⟩
  · obtain ⟨hfind, hpath⟩ :=
      ((find?_exact hload "shell/install.sh/lib/log.sh").2.1 f).mpr hleads
    cases hpast.symm.trans hfind
    exact absurd hpath (by decide)

theorem key_past_file_is_answered : ¬ ∀ (sources : List Source) (d : Directory) (key : String),
    load? sources = some d → ∀ f, find? d key = some f ↔ Leads d (parts key) (.file f) := by
  intro h
  have hfind : find? templates "installer/installer.sh/installer.sh" =
      some ⟨"installer.sh", "installer/installer.sh"⟩ := by decide
  have hover : Overlooks templates ["installer", "installer.sh", "installer.sh"]
      ["installer", "installer.sh"] := .enter rfl (.pass rfl (.last _ _))
  have hleads := (h sources templates "installer/installer.sh/installer.sh" rfl _).mp hfind
  exact absurd (hleads.eq_of_overlooks hover) (by decide)

end ReleaseInstaller.Bundle
