import ReleaseInstaller.Text.Basic

/-! What a shell makes of an unquoted word in an assignment: characters without a meaning stay, and
references to variables give way to their values. -/
namespace ReleaseInstaller.Shell

/-- The values of variables. -/
abbrev Environment := String → String

/-- The name of a variable: letters, digits and underscores, with no digit in front. -/
def isVariableName : List Char → Bool
  | [] => false
  | c :: rest => (c.isAlpha || c == '_') && rest.all fun x => x.isAlphanum || x == '_'

/-- Where in a word the shell is: outside of references, after a dollar sign, or after what it has read
of a name, the latest character first. -/
inductive Reading where
  | word
  | dollar
  | name (read : List Char)

/-- Expands the rest of a word. Fails if anything but a reference means something to the shell. -/
def expandFrom (env : Environment) : Reading → List Char → Option (List Char)
  | .word, [] => some []
  | .dollar, [] | .name _, [] => none
  | .word, c :: rest =>
    if c = '$' then expandFrom env .dollar rest
    else if isWordChar c then (expandFrom env .word rest).map (c :: ·)
    else none
  | .dollar, c :: rest => if c = '\x7b' then expandFrom env (.name []) rest else none
  | .name read, c :: rest =>
    if c = '\x7d' then
      if isVariableName read.reverse then
        (expandFrom env .word rest).map ((env (String.ofList read.reverse)).toList ++ ·)
      else none
    else expandFrom env (.name (c :: read)) rest

/-- What is assigned for a word. -/
def expand (env : Environment) (s : List Char) : Option (List Char) := expandFrom env .word s

variable {env : Environment}

theorem expand_inert {c : Char} (hc : isWordChar c = true) (rest : List Char) :
    expand env (c :: rest) = (expand env rest).map (c :: ·) := by
  have hd : c ≠ '$' := by
    rintro rfl
    contradiction
  simp only [expand, expandFrom, if_neg hd, hc, if_true]

theorem expand_inert_append {s : List Char} (h : ∀ c ∈ s, isWordChar c = true)
    (rest : List Char) : expand env (s ++ rest) = (expand env rest).map (s ++ ·) := by
  induction s with
  | nil => simp
  | cons c s ih =>
    have hr := ih fun x hx => h x (by simp [hx])
    rw [List.cons_append, expand_inert (h c (by simp)), hr, Option.map_map]
    rfl

theorem isVariableName_ne {name : List Char} (h : isVariableName name = true) :
    ∀ c ∈ name, c ≠ '\x7d' := by
  cases name with
  | nil => simp
  | cons d rest =>
    simp only [isVariableName, Bool.and_eq_true, List.all_eq_true] at h
    intro c hc he
    subst he
    rcases List.mem_cons.mp hc with rfl | hc
    · exact absurd h.1 (by decide)
    · exact absurd (h.2 _ hc) (by decide)

/-- A name is read up to the brace that closes it. -/
theorem expandFrom_name (env : Environment) {name : List Char} (h : ∀ c ∈ name, c ≠ '\x7d')
    (read rest : List Char) :
    expandFrom env (.name read) (name ++ rest) =
      expandFrom env (.name (name.reverse ++ read)) rest := by
  induction name generalizing read with
  | nil => rfl
  | cons c name ih =>
    have hr := ih (fun x hx => h x (by simp [hx])) (c :: read)
    simp only [List.cons_append, expandFrom, if_neg (h c (by simp)), hr, List.reverse_cons,
      List.append_assoc, List.nil_append]

theorem expand_reference (env : Environment) {name : List Char}
    (h : isVariableName name = true) (rest : List Char) : expand env ('$' :: '\x7b' :: (name ++ '\x7d' :: rest)) =
      (expand env rest).map ((env (String.ofList name)).toList ++ ·) := by
  have hn := expandFrom_name env (isVariableName_ne h) [] ('\x7d' :: rest)
  simp only [expand, expandFrom, if_true, hn, List.append_nil, List.reverse_reverse, h]

end ReleaseInstaller.Shell
