import ReleaseInstaller.Proofs.Dictionary
import ReleaseInstaller.Store

/-! What a store holds after a file is written: the file itself, new directories above it, and all that
was there before. -/
namespace ReleaseInstaller.Store

/-- Where a written path leads if every step can be taken. -/
def place (name : String) : Path := (pieces name).foldl step (start name)

/-- The places that are passed on some steps, with the last one. -/
def stops (here : Path) : List String → List Path
  | [] => []
  | piece :: rest => step here piece :: stops (step here piece) rest

/-- The places that are passed on the way to the place of a written path. -/
def above (name : String) : List Path := stops (start name) (names name).dropLast

/-- All that one store holds, another one holds too. -/
def Extends (s s' : Store) : Prop := ∀ p e, s.find? p = some e → s'.find? p = some e

/-- Nothing changes but that there are directories at some of the places where nothing was. -/
def Adds (places : List Path) (s s' : Store) : Prop := ∀ p, s'.find? p = s.find? p ∨
  p ∈ places ∧ s.find? p = none ∧ s'.find? p = some .directory

variable {s s' : Store} {places : List Path}

theorem Adds.refl (places : List Path) (s : Store) : Adds places s s := fun _ => .inl rfl

theorem Adds.trans {s'' : Store} (h : Adds places s s') (h' : Adds places s' s'') :
    Adds places s s'' := by
  intro p
  rcases h' p with heq' | ⟨hp, hnone, hdir⟩
  · rw [heq']
    exact h p
  · rcases h p with heq | ⟨-, -, hdir'⟩
    · exact .inr ⟨hp, heq ▸ hnone, hdir⟩
    · rw [hdir'] at hnone
      contradiction

theorem Adds.mono {others : List Path} (h : Adds places s s') (hsub : places ⊆ others) :
    Adds others s s' := fun p => (h p).imp_right fun ⟨hp, hrest⟩ => ⟨hsub hp, hrest⟩

/-- Where something was, it is still there. -/
theorem Adds.extends (h : Adds places s s') : Extends s s' := by
  intro p e hp
  rcases h p with heq | ⟨-, hnone, -⟩
  · rw [heq, hp]
  · rw [hp] at hnone
    contradiction

theorem isDirectory_iff {p : Path} : s.isDirectory p = true ↔ s.find? p = some .directory := by
  simp only [isDirectory, beq_iff_eq]

theorem Extends.isDirectory (h : Extends s s') {p : Path} (hp : s.isDirectory p = true) :
    s'.isDirectory p = true :=
  isDirectory_iff.mpr (h p _ (isDirectory_iff.mp hp))

theorem isDirectory_of_isGiven (s : Store) {p : Path} (h : isGiven p = true) :
    s.isDirectory p = true := by
  simp only [isDirectory_iff, find?, h, if_true]

theorem isDirectory_start (s : Store) (name : String) : s.isDirectory (start name) = true := by
  apply isDirectory_of_isGiven
  unfold start
  split <;> rfl

/-- Putting an entry where no directory is changes what is there, and nothing else. -/
theorem find?_put {p : Path} (hp : s.isDirectory p = false) (e : Entry) (q : Path) :
    (s.put p e).find? q = if q = p then some e else s.find? q := by
  replace hp : isGiven p = false := by
    rw [Bool.eq_false_iff]
    intro hg
    rw [isDirectory_of_isGiven s hg] at hp
    contradiction
  by_cases h : q = p
  · simp [find?, put, h, hp]
  · have hq : (q == p) = false := by simpa using h
    simp only [find?, put, List.lookup_cons, hq, Dictionary.lookup_filter_ne h, if_neg h]

theorem isDirectory_of_find?_none {p : Path} (h : s.find? p = none) :
    s.isDirectory p = false := by
  simp [isDirectory, h]

theorem adds_put {p : Path} (h : s.find? p = none) (hp : p ∈ places) :
    Adds places s (s.put p .directory) := by
  intro q
  rw [find?_put (isDirectory_of_find?_none h)]
  by_cases hq : q = p
  · rw [hq, if_pos rfl]
    exact .inr ⟨hp, h, rfl⟩
  · exact .inl (if_neg hq)

theorem walk?_eq_foldl {here there : Path} {ps : List String} (h : s.walk? here ps = some there) :
    there = ps.foldl step here := by
  induction ps generalizing here with
  | nil => exact (Option.some.inj h).symm
  | cons piece ps ih =>
    rw [walk?] at h
    split at h
    · exact ih h
    · contradiction

theorem walk?_append (s : Store) (here : Path) (ps qs : List String) :
    s.walk? here (ps ++ qs) = (s.walk? here ps).bind fun there => s.walk? there qs := by
  induction ps generalizing here with
  | nil => rfl
  | cons piece ps ih =>
    simp only [List.cons_append, walk?]
    split
    · exact ih _
    · rfl

/-- A way stays open as long as directories stay what they are. -/
theorem walk?_mono (h : ∀ p, s.isDirectory p = true → s'.isDirectory p = true)
    {here there : Path} {ps : List String} (hw : s.walk? here ps = some there) :
    s'.walk? here ps = some there := by
  induction ps generalizing here with
  | nil => exact hw
  | cons piece ps ih =>
    rw [walk?] at hw ⊢
    split at hw
    · rename_i hd
      rw [if_pos (h _ hd)]
      exact ih hw
    · contradiction

theorem isDirectory_of_walk? {here there : Path} {ps : List String}
    (h : s.walk? here ps = some there) (ht : s.isDirectory there = true) :
    s.isDirectory here = true := by
  cases ps with
  | nil => rwa [Option.some.inj h]
  | cons piece ps =>
    rw [walk?] at h
    split at h
    · assumption
    · contradiction

/-- The piece names something: it is neither empty nor a single dot. -/
abbrev IsName (piece : String) : Prop := piece ≠ "" ∧ piece ≠ "."

theorem step_of_not_isName {piece : String} (h : ¬ IsName piece) (here : Path) :
    step here piece = here := by
  rw [step, if_pos]
  by_cases hp : piece = ""
  · exact .inl hp
  · exact .inr (Classical.not_not.mp fun hd => h ⟨hp, hd⟩)

theorem step_of_isName {piece : String} (h : IsName piece) (hdots : piece ≠ "..") (here : Path) :
    step here piece = here ++ [piece] := by
  rw [step, if_neg (by simpa using h), if_neg hdots]

/-- Pieces that name nothing lead nowhere else. -/
theorem walk?_of_filter {here there : Path} {ps : List String}
    (h : s.walk? here (ps.filter IsName) = some there) (ht : s.isDirectory there = true) :
    s.walk? here ps = some there := by
  have hd := isDirectory_of_walk? h ht
  induction ps generalizing here with
  | nil => exact h
  | cons piece ps ih =>
    rw [walk?, if_pos hd]
    by_cases hp : IsName piece
    · rw [List.filter_cons, if_pos (by simpa using hp), walk?, if_pos hd] at h
      exact ih h (isDirectory_of_walk? h ht)
    · rw [List.filter_cons, if_neg (by simpa using hp)] at h
      rw [step_of_not_isName hp]
      exact ih h hd

/-- Making directories changes nothing else, also where it comes to an end on the way. -/
theorem makeDirectories_adds (s : Store) (here : Path) (ps : List String) :
    Adds (stops here ps) s (s.makeDirectories here ps).2 := by
  induction ps generalizing s here with
  | nil => exact .refl _ s
  | cons piece ps ih =>
    have hlater := List.subset_cons_self (step here piece) (stops (step here piece) ps)
    rw [makeDirectories]
    split
    · exact (ih s _).mono hlater
    · exact .refl _ s
    · rename_i hf
      exact (adds_put hf List.mem_cons_self).trans ((ih _ _).mono hlater)

/-- The way is open once the directories are made. -/
theorem walk?_makeDirectories {here there : Path} {ps : List String}
    (h : s.makeDirectories here ps = (some there, s')) (hd : s.isDirectory here = true) :
    s'.walk? here ps = some there ∧ s'.isDirectory there = true := by
  induction ps generalizing s here with
  | nil =>
    obtain ⟨hthere, rfl⟩ := Prod.mk.inj h
    obtain rfl := Option.some.inj hthere
    exact ⟨rfl, hd⟩
  | cons piece ps ih =>
    have hadds := makeDirectories_adds s here (piece :: ps)
    rw [h] at hadds
    have hhere : s'.isDirectory here = true := hadds.extends.isDirectory hd
    rw [walk?, if_pos hhere]
    rw [makeDirectories] at h
    split at h
    · rename_i hf
      exact ih h (isDirectory_iff.mpr hf)
    · cases h
    · rename_i hf
      apply ih h
      rw [isDirectory_iff, find?_put (isDirectory_of_find?_none hf), if_pos rfl]

theorem names_dropLast {name last : String} (h : (pieces name).getLast? = some last)
    (hl : IsName last) : (names name).dropLast = (pieces name).dropLast.filter IsName := by
  obtain ⟨init, hi⟩ := List.getLast?_eq_some_iff.mp h
  have hf : [last].filter IsName = [last] := by simpa using hl
  unfold names
  rw [hi, List.filter_append]
  simp only [hf, List.dropLast_concat]

/-- The way to a file is open once the directories above it are made. -/
theorem locate?_of_makeDirectories {name last : String} {here : Path}
    (hlast : (names name).getLast? = some last) (hdots : last ≠ "..")
    (hpieces : (pieces name).getLast? = some last)
    (hmake : s.makeDirectories (start name) (names name).dropLast = (some here, s')) :
    s'.locate? name = some (here ++ [last]) := by
  obtain ⟨hw, hhere⟩ := walk?_makeDirectories hmake (isDirectory_start s name)
  have hname : IsName last := by
    have hm := List.mem_of_getLast? hlast
    simpa [names] using (List.mem_filter.mp hm).2
  have hempty : name.isEmpty = false := by
    rw [Bool.eq_false_iff]
    intro hn
    rw [String.isEmpty_iff.mp hn] at hpieces
    exact hname.1 (Option.some.inj hpieces).symm
  obtain ⟨init, hi⟩ := List.getLast?_eq_some_iff.mp hpieces
  rw [names_dropLast hpieces hname] at hw
  have hwalk := walk?_of_filter hw hhere
  rw [hi, List.dropLast_concat] at hwalk
  simp only [locate?, hempty, Bool.false_eq_true, if_false]
  rw [hi, walk?_append, hwalk]
  simp only [Option.bind_some, walk?, hhere, if_true, step_of_isName hname hdots here]

theorem eq_place_of_locate? {name : String} {p : Path} (h : s.locate? name = some p) :
    p = place name := by
  unfold locate? at h
  split at h
  · contradiction
  · exact walk?_eq_foldl h

/-- A file is written at the place of its name, once the directories above it are there. -/
theorem write_eq_ok {name : String} {e : Entry} (h : s.write name e = .ok s') :
    ∃ s₁, Adds (above name) s s₁ ∧ s₁.isDirectory (place name) = false ∧
      s' = s₁.put (place name) e ∧ s₁.locate? name = some (place name) := by
  unfold write at h
  split at h
  · contradiction
  · contradiction
  · rename_i last hdots hlast
    have hadds := makeDirectories_adds s (start name) (names name).dropLast
    split at h
    · contradiction
    · rename_i here s₁ hmake
      rw [hmake] at hadds
      split at h
      · rename_i hif
        obtain ⟨hpieces, hfile⟩ := hif
        have hlocate := locate?_of_makeDirectories hlast hdots hpieces hmake
        have hplace := eq_place_of_locate? hlocate
        rw [hplace] at hfile hlocate h
        exact ⟨s₁, hadds, by simpa using hfile, (Except.ok.inj h).symm, hlocate⟩
      · contradiction

/-- A file that cannot be written leaves new directories above it, and nothing else. -/
theorem write_eq_refused {name : String} {e : Entry} {left : Store}
    (h : s.write name e = .error (.refused left)) : Adds (above name) s left := by
  unfold write at h
  split at h
  · cases h
  · cases h
  · have hadds := makeDirectories_adds s (start name) (names name).dropLast
    split at h
    · rename_i s₁ hmake
      rw [hmake] at hadds
      obtain rfl := WriteFault.refused.inj (Except.error.inj h)
      exact hadds
    · rename_i here s₁ hmake
      rw [hmake] at hadds
      split at h
      · contradiction
      · obtain rfl := WriteFault.refused.inj (Except.error.inj h)
        exact hadds

theorem locate?_mono (h : ∀ p, s.isDirectory p = true → s'.isDirectory p = true) {name : String}
    {p : Path} (hl : s.locate? name = some p) : s'.locate? name = some p := by
  unfold locate? at hl ⊢
  split at hl
  · contradiction
  · rename_i hn
    rw [if_neg hn]
    exact walk?_mono h hl

theorem text?_eq_some_iff {name content : String} : s.text? name = some content ↔
    s.locate? name = some (place name) ∧ s.find? (place name) = some (.text content) := by
  unfold text? lookup?
  constructor
  · intro h
    split at h
    · rename_i c hc
      obtain ⟨p, hp, hf⟩ := Option.bind_eq_some_iff.mp hc
      obtain rfl := eq_place_of_locate? hp
      obtain rfl := Option.some.inj h
      exact ⟨hp, hf⟩
    · contradiction
  · rintro ⟨hl, hf⟩
    simp only [hl, Option.bind_eq_bind, Option.bind_some, hf]

theorem contains_of_text? {name content : String} (h : s.text? name = some content) :
    s.contains name = true := by
  obtain ⟨hl, hf⟩ := text?_eq_some_iff.mp h
  simp only [contains, lookup?, hl, Option.bind_eq_bind, Option.bind_some, hf, Option.isSome_some]

/-- A single name is looked up as it is. -/
theorem text?_of_name {name content : String} (hstart : start name = [])
    (hpieces : pieces name = [name]) (hname : IsName name) (hdots : name ≠ "..")
    (h : s.find? [name] = some (.text content)) : s.text? name = some content := by
  have hempty : name.isEmpty = false := by
    rw [Bool.eq_false_iff]
    intro hn
    exact hname.1 (String.isEmpty_iff.mp hn)
  have hstep : step [] name = [name] := step_of_isName hname hdots []
  have hplace : place name = [name] := by
    rw [place, hstart, hpieces, List.foldl_cons, List.foldl_nil, hstep]
  have hroot : s.isDirectory [] = true := isDirectory_of_isGiven s rfl
  rw [text?_eq_some_iff, hplace]
  refine ⟨?_, h⟩
  simp only [locate?, hempty, Bool.false_eq_true, if_false, hstart, hpieces, walk?, hroot, if_true,
    hstep]

/-- A file never takes the place of a directory. -/
theorem isDirectory_put {p q : Path} (hp : s.isDirectory p = false) (e : Entry)
    (hq : s.isDirectory q = true) : (s.put p e).isDirectory q = true := by
  rw [isDirectory_iff, find?_put hp, if_neg]
  · exact isDirectory_iff.mp hq
  · rintro rfl
    rw [hp] at hq
    contradiction

section Write
variable {name : String} {e : Entry}

/-- What has been written is what is read. -/
theorem text?_write {content : String} (h : s.write name (.text content) = .ok s') :
    s'.text? name = some content := by
  obtain ⟨s₁, -, hfile, rfl, hl⟩ := write_eq_ok h
  refine text?_eq_some_iff.mpr ⟨locate?_mono (fun p hp => isDirectory_put hfile _ hp) hl, ?_⟩
  rw [find?_put hfile, if_pos rfl]

/-- Writing a file puts it at its place, and makes directories above it. -/
theorem find?_write (h : s.write name e = .ok s') : s'.find? (place name) = some e ∧
    ∀ p ≠ place name, s'.find? p = s.find? p ∨
      p ∈ above name ∧ s.find? p = none ∧ s'.find? p = some .directory := by
  obtain ⟨s₁, hadds, hfile, rfl, -⟩ := write_eq_ok h
  refine ⟨by rw [find?_put hfile, if_pos rfl], fun p hp => ?_⟩
  rw [find?_put hfile, if_neg hp]
  exact hadds p

/-- Writing a file leaves the files at other places as they are. -/
theorem text?_write_of_ne {other content : String} (h : s.write name e = .ok s')
    (hne : place other ≠ place name) (ho : s.text? other = some content) :
    s'.text? other = some content := by
  obtain ⟨s₁, hadds, hfile, rfl, -⟩ := write_eq_ok h
  obtain ⟨hl, hf⟩ := text?_eq_some_iff.mp ho
  refine text?_eq_some_iff.mpr ⟨?_, ?_⟩
  · exact locate?_mono (fun p hp => isDirectory_put hfile _ (hadds.extends.isDirectory hp)) hl
  · rw [find?_put hfile, if_neg hne]
    exact hadds.extends _ _ hf

end Write

end ReleaseInstaller.Store
