import ReleaseInstaller.Template

/-! Templates that give a text exactly if every value is there that they mention. A branch of a template
can be passed over, and with it what it mentions; it must not ask for more than its condition does. -/
namespace ReleaseInstaller.Template

/-- The forms that values are meant to have. -/
inductive Form where
  | text
  | optionalText
  | truth
  | list (item : Form)
  | record (members : List (String × Form))
  deriving Repr

namespace Form

def member? (key : String) : Form → Option Form
  | record members => members.lookup key
  | _ => none

/-- The form of the values at a path of members. -/
def at? (f : Form) : List String → Option Form
  | [] => some f
  | key :: path => (f.member? key).bind (at? · path)

/-- A value has a form. Of the members of a record any may be missing. -/
inductive Fits : Form → Value → Prop where
  | text (s : String) : Fits text (.text s)
  | someText (s : String) : Fits optionalText (.text s)
  | noText : Fits optionalText .nothing
  | truth (b : Bool) : Fits truth (.truth b)
  | list {f : Form} {items : List Value} (h : ∀ v ∈ items, Fits f v) : Fits (list f) (.list items)
  | record {forms : List (String × Form)} {members : List (String × Value)}
      (h : ∀ key f v, forms.lookup key = some f → members.lookup key = some v → Fits f v) :
      Fits (record forms) (.record members)

theorem fits_record {forms : List (String × Form)} {members : List (String × Value)}
    (h : ∀ m ∈ members, ∀ f, forms.lookup m.1 = some f → f.Fits m.2) :
    (record forms).Fits (.record members) := by
  refine .record fun key f v hf hv => h (key, v) ?_ f hf
  obtain ⟨before, after, rfl, -⟩ := List.lookup_eq_some_iff.mp hv
  exact List.mem_append_right _ List.mem_cons_self

variable {f g : Form} {v w : Value} {path : List String}

theorem Fits.at? (h : f.Fits v) (hform : f.at? path = some g) (hvalue : v.at? path = some w) :
    g.Fits w := by
  induction path generalizing f v with
  | nil =>
    obtain rfl := Option.some.inj hform
    obtain rfl := Option.some.inj hvalue
    exact h
  | cons key path ih =>
    obtain ⟨f', hf', hrest⟩ := Option.bind_eq_some_iff.mp hform
    obtain ⟨v', hv', hrest'⟩ := Option.bind_eq_some_iff.mp hvalue
    cases h with
    | record hmembers => exact ih (hmembers key f' v' hf' hv') hrest hrest'
    | _ => exact absurd hf' nofun

theorem Fits.cons {forms : List (String × Form)} {scope : Scope} {name : String}
    (h : (Form.record forms).Fits (.record scope)) (hv : f.Fits v) :
    (Form.record ((name, f) :: forms)).Fits (.record ((name, v) :: scope)) := by
  cases h with
  | record hmembers =>
    refine .record fun key f' v' hf' hv' => ?_
    rw [List.lookup_cons] at hf' hv'
    by_cases hkey : (key == name) = true
    · rw [hkey] at hf' hv'
      obtain rfl := Option.some.inj hf'
      obtain rfl := Option.some.inj hv'
      exact hv
    · rw [Bool.not_eq_true] at hkey
      rw [hkey] at hf' hv'
      exact hmembers key f' v' hf' hv'

end Form

theorem find?_cons {key name : String} {v : Value} {scope : Scope} {path : List String} :
    find? ((name, v) :: scope) (key :: path) =
      if key = name then v.at? path else find? scope (key :: path) := by
  by_cases hkey : key = name
  · subst hkey
    simp [find?, Value.at?, Value.member?]
  · simp [find?, Value.at?, Value.member?, List.lookup_cons, hkey, beq_eq_false_iff_ne.mpr hkey]

/-- There is a value at a path. -/
def Has (scope : Scope) (path : List String) : Prop := ∃ v, find? scope path = some v

mutual

/-- All values that a part mentions are there, also where the part would not ask for them. -/
def Part.Given (scope : Scope) : Part → Prop
  | .fixed _ => True
  | .value path => Has scope path
  | .refusal _ => True
  | .choice path filled blank => Has scope path ∧ Given scope filled ∧ Given scope blank
  | .each name path body => ∃ v, find? scope path = some v ∧
    ∃ items, v.items? = some items ∧ ∀ item ∈ items, Given ((name, item) :: scope) body

def Given (scope : Scope) : List Part → Prop
  | [] => True
  | p :: rest => p.Given scope ∧ Given scope rest

end

section Given
variable {scope : Scope} {path : List String} {name : String} {v : Value}

@[simp] theorem given_nil : Given scope [] := trivial

@[simp] theorem given_cons {p : Part} {parts : List Part} :
    Given scope (p :: parts) ↔ p.Given scope ∧ Given scope parts := Iff.rfl

@[simp] theorem given_fixed {s : String} : (Part.fixed s).Given scope := trivial

@[simp] theorem given_refusal {message : String} : (Part.refusal message).Given scope := trivial

@[simp] theorem given_value : (Part.value path).Given scope ↔ Has scope path := Iff.rfl

@[simp] theorem given_choice {filled blank : List Part} : (Part.choice path filled blank).Given scope ↔
    Has scope path ∧ Given scope filled ∧ Given scope blank := Iff.rfl

/-- The name of a loop stands for an item in it. -/
@[simp] theorem has_cons_self : Has ((name, v) :: scope) (name :: path) ↔ ∃ w, v.at? path = some w := by
  simp [Has, find?_cons]

theorem given_append {parts parts' : List Part} :
    Given scope (parts ++ parts') ↔ Given scope parts ∧ Given scope parts' := by
  induction parts with
  | nil => exact (and_iff_right trivial).symm
  | cons p parts ih => exact (and_congr_right fun _ => ih).trans and_assoc.symm

end Given

def Part.isFixed : Part → Bool
  | .fixed _ => true
  | _ => false

/-- A part that mentions no value outside of loops but the one at the path. -/
def Part.isAbout (path : List String) : Part → Bool
  | .fixed _ => true
  | .value path' => path' == path
  | .each _ path' _ => path' == path
  | _ => false

mutual

/-- A part that asks for everything that it mentions, and goes through lists only. -/
def Part.isStrict (forms : List (String × Form)) : Part → Bool
  | .fixed _ => true
  | .value _ => true
  | .refusal _ => false
  | .choice path filled blank =>
    filled.all (Part.isAbout path) && blank.all Part.isFixed && areStrict forms filled
  | .each name path body =>
    match (Form.record forms).at? path with
    | some (.list item) => areStrict ((name, item) :: forms) body
    | _ => false

def areStrict (forms : List (String × Form)) : List Part → Bool
  | [] => true
  | p :: rest => p.isStrict forms && areStrict forms rest

end

/-- A result that is there if what it takes is given, and else fails for want of it. -/
def Answers {α : Type} (given : Prop) (result : Except Fault α) : Prop :=
  given ∧ (∃ x, result = .ok x) ∨ ¬ given ∧ result = .error .missing

section Answers
variable {α β : Type} {given given' : Prop} {result : Except Fault α}

theorem answers_ok (x : α) : Answers True (.ok x) := .inl ⟨trivial, x, rfl⟩

theorem Answers.congr (h : Answers given result) (hiff : given ↔ given') : Answers given' result := by
  rwa [← propext hiff]

theorem Answers.map (h : Answers given result) (f : α → β) : Answers given (f <$> result) := by
  rcases h with ⟨hgiven, x, rfl⟩ | ⟨hgiven, rfl⟩
  · exact .inl ⟨hgiven, f x, rfl⟩
  · exact .inr ⟨hgiven, rfl⟩

theorem Answers.bind {next : α → Except Fault β} (h : Answers given result)
    (hnext : ∀ x, Answers given' (next x)) : Answers (given ∧ given') (result >>= next) := by
  rcases h with ⟨hgiven, x, rfl⟩ | ⟨hgiven, rfl⟩
  · exact (hnext x).congr (and_iff_right hgiven).symm
  · exact .inr ⟨fun h => hgiven h.1, rfl⟩

theorem answers_need_bind {o : Option α} {next : α → Except Fault β} {given : α → Prop}
    (h : ∀ x, o = some x → Answers (given x) (next x)) :
    Answers (∃ x, o = some x ∧ given x) (need o >>= next) := by
  cases o with
  | none => exact .inr ⟨nofun, rfl⟩
  | some x => exact (h x rfl).congr (by simp)

theorem answers_mapM {items : List α} {next : α → Except Fault β} {given : α → Prop}
    (h : ∀ x ∈ items, Answers (given x) (next x)) :
    Answers (∀ x ∈ items, given x) (items.mapM next) := by
  induction items with
  | nil => exact .inl ⟨nofun, [], rfl⟩
  | cons x items ih =>
    obtain ⟨hx, hitems⟩ := List.forall_mem_cons.mp h
    rw [List.mapM_cons]
    refine (hx.bind fun y => (ih hitems).map (y :: ·)).congr ?_
    exact List.forall_mem_cons.symm

end Answers

variable {forms : List (String × Form)} {scope : Scope}

/-- A text without values is always there. -/
theorem render_of_isFixed {parts : List Part} (h : parts.all Part.isFixed = true) :
    Given scope parts ∧ ∃ text, render scope parts = .ok text := by
  induction parts with
  | nil => exact ⟨trivial, [], rfl⟩
  | cons p rest ih =>
    obtain ⟨hp, hrest⟩ := Bool.and_eq_true_iff.mp h
    obtain ⟨hgiven, text, htext⟩ := ih hrest
    cases p with
    | fixed s => exact ⟨⟨trivial, hgiven⟩, s.toList ++ text, by rw [render, htext]; rfl⟩
    | _ => exact absurd hp Bool.false_ne_true

/-- What is passed over because a value does not meet a condition mentions only that value, and has no
items to go through. -/
theorem given_of_isAbout {parts : List Part} {path : List String} {v : Value}
    (habout : parts.all (Part.isAbout path) = true) (hstrict : areStrict forms parts = true)
    (hfits : (Form.record forms).Fits (.record scope)) (hfind : find? scope path = some v)
    (hblank : v.holds = false) : Given scope parts := by
  induction parts with
  | nil => trivial
  | cons p rest ih =>
    obtain ⟨hp, hrest⟩ := Bool.and_eq_true_iff.mp habout
    obtain ⟨hstrict, hstricts⟩ := Bool.and_eq_true_iff.mp hstrict
    refine ⟨?_, ih hrest hstricts⟩
    cases p with
    | fixed s => trivial
    | value path' =>
      obtain rfl := eq_of_beq hp
      exact ⟨v, hfind⟩
    | each name path' body =>
      obtain rfl := eq_of_beq hp
      rw [Part.isStrict] at hstrict
      split at hstrict
      · rename_i item hform
        cases hfits.at? hform hfind with
        | @list _ items hitems =>
          have hnil : items = [] := by simpa [Value.holds] using hblank
          exact ⟨_, hfind, items, rfl, by simp [hnil]⟩
      · exact absurd hstrict Bool.false_ne_true
    | _ => exact absurd hp Bool.false_ne_true

mutual

/-- A strict part gives a text if everything is there that it mentions, and otherwise something is
missing. -/
theorem Part.answers {forms : List (String × Form)} {scope : Scope} (p : Part)
    (h : p.isStrict forms = true) (hfits : (Form.record forms).Fits (.record scope)) :
    Answers (p.Given scope) (p.render scope) := by
  cases p with
  | fixed s => exact answers_ok s.toList
  | value path =>
    refine (answers_need_bind fun v _ => answers_ok v.written.toList).congr ?_
    simp [Part.Given, Has]
  | refusal message => exact absurd h Bool.false_ne_true
  | choice path filled blank =>
    simp only [Part.isStrict, Bool.and_eq_true] at h
    obtain ⟨⟨habout, hfixed⟩, hstrict⟩ := h
    obtain ⟨hgiven, text, htext⟩ : Given scope blank ∧ ∃ text, render scope blank = .ok text :=
      render_of_isFixed hfixed
    refine (answers_need_bind fun v hfind => ?_).congr exists_and_right
    by_cases hv : v.holds = true
    · rw [if_pos hv]
      exact (answers filled hstrict hfits).congr (and_iff_left hgiven).symm
    · rw [if_neg hv]
      have hfilled := given_of_isAbout habout hstrict hfits hfind (Bool.eq_false_iff.mpr hv)
      exact .inl ⟨⟨hfilled, hgiven⟩, text, htext⟩
  | each name path body =>
    rw [Part.isStrict] at h
    split at h
    · rename_i item hform
      refine answers_need_bind fun v hfind => answers_need_bind fun items hitems => ?_
      refine (answers_mapM fun x hx => ?_).map List.flatten
      cases hfits.at? hform hfind with
      | list hall =>
        obtain rfl := Option.some.inj hitems
        exact answers body h (hfits.cons (hall x hx))
    · exact absurd h Bool.false_ne_true

theorem answers {forms : List (String × Form)} {scope : Scope} (parts : List Part)
    (h : areStrict forms parts = true) (hfits : (Form.record forms).Fits (.record scope)) :
    Answers (Given scope parts) (render scope parts) := by
  cases parts with
  | nil => exact answers_ok []
  | cons p rest =>
    obtain ⟨hp, hrest⟩ := Bool.and_eq_true_iff.mp h
    exact (p.answers hp hfits).bind fun text => (answers rest hrest hfits).map (text ++ ·)

end

/-- What a loop over a list mentions. -/
theorem Part.given_each {name : String} {path : List String} {body : List Part} {f : Form}
    (hfits : (Form.record forms).Fits (.record scope))
    (hform : (Form.record forms).at? path = some (.list f)) :
    (Part.each name path body).Given scope ↔ Has scope path ∧
      ∀ items, find? scope path = some (.list items) →
        ∀ item ∈ items, Template.Given ((name, item) :: scope) body := by
  constructor
  · rintro ⟨v, hfind, items, hitems, hgiven⟩
    refine ⟨⟨v, hfind⟩, fun items' hfind' => ?_⟩
    obtain rfl := Option.some.inj (hfind.symm.trans hfind')
    obtain rfl := Option.some.inj hitems
    exact hgiven
  · rintro ⟨⟨v, hfind⟩, hgiven⟩
    cases hfits.at? hform hfind with
    | @list _ items _ => exact ⟨_, hfind, items, rfl, hgiven items hfind⟩

theorem areStrict_append {parts parts' : List Part} :
    areStrict forms (parts ++ parts') = (areStrict forms parts && areStrict forms parts') := by
  induction parts with
  | nil => rfl
  | cons p parts ih => rw [List.cons_append, areStrict, areStrict, ih, Bool.and_assoc]

theorem render_append (parts parts' : List Part) : render scope (parts ++ parts') =
    render scope parts >>= fun text => (text ++ ·) <$> render scope parts' := by
  induction parts with
  | nil =>
    rw [List.nil_append]
    cases render scope parts' <;> rfl
  | cons p parts ih =>
    rw [List.cons_append, render, render, ih]
    cases p.render scope with
    | error fault => rfl
    | ok text =>
      cases render scope parts with
      | error fault => rfl
      | ok text' =>
        cases render scope parts' with
        | error fault => rfl
        | ok text'' => exact congrArg Except.ok (List.append_assoc ..).symm

theorem render_check {path : List String} {message : String} {v : Value}
    (hfind : find? scope path = some v) :
    (Part.choice path [] [.refusal message]).render scope =
      if v.holds then .ok [] else .error (.refused message) := by
  rw [Part.render, hfind]
  rfl

/-- A strict template that in between gives up on a value that does not meet a condition. It gives up
only if it comes so far. -/
theorem render_checked {before after parts : List Part} {path : List String} {message : String}
    (hparts : parts = before ++ .choice path [] [.refusal message] :: after)
    (hbefore : areStrict forms before = true) (hafter : areStrict forms after = true)
    (hfits : (Form.record forms).Fits (.record scope)) :
    (∃ text, render scope parts = .ok text) ∧ Given scope parts ∧
      (∃ v, find? scope path = some v ∧ v.holds = true) ∨
    render scope parts = .error (.refused message) ∧ Given scope before ∧
      (∃ v, find? scope path = some v ∧ v.holds = false) ∨
    render scope parts = .error .missing ∧ ¬ Given scope parts ∧
      ¬ (Given scope before ∧ ∃ v, find? scope path = some v ∧ v.holds = false) := by
  have hgiven : Given scope parts ↔
      Given scope before ∧ Has scope path ∧ Given scope after := by
    simp [hparts, given_append]
  rw [hgiven, hparts, render_append]
  rcases answers before hbefore hfits with ⟨hfirst, text, htext⟩ | ⟨hfirst, htext⟩
  · rw [htext, render]
    cases hfind : find? scope path with
    | none =>
      have hnone : ¬ Has scope path := by simp [Has, hfind]
      exact .inr (.inr ⟨by rw [Part.render, hfind]; rfl, fun h => hnone h.2.1, by simp⟩)
    | some v =>
      rw [render_check hfind]
      cases hv : v.holds with
      | false => exact .inr (.inl ⟨rfl, hfirst, v, rfl, hv⟩)
      | true =>
        rcases answers after hafter hfits with ⟨hlast, text', htext'⟩ | ⟨hlast, htext'⟩
        · rw [htext']
          exact .inl ⟨⟨text ++ text', rfl⟩, ⟨hfirst, ⟨v, hfind⟩, hlast⟩, v, rfl, hv⟩
        · rw [htext']
          exact .inr (.inr ⟨rfl, fun h => hlast h.2.2, by simp [hv]⟩)
  · rw [htext]
    exact .inr (.inr ⟨rfl, fun h => hfirst h.1, fun h => hfirst h.1⟩)

end ReleaseInstaller.Template
