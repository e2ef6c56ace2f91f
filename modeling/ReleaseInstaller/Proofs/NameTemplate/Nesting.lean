import Mathlib.Data.List.Infix
import ReleaseInstaller.NameTemplate.Tree

/-! Conditionals as they stand in a template: in which of their branches a place lies. A conditional is
open at a place if the actions between the two open at least as many conditionals as they close, and so
does every first part of them. -/
namespace ReleaseInstaller.NameTemplate
open Text

/-- What the first word of an action makes of it. -/
inductive Role where
  | opening (condition : List Char)
  | dividing
  | closing
  | content
  deriving DecidableEq, Repr

namespace Role

def ofAction (text : List Char) : Role :=
  if (firstWord text).1 = "if".toList then .opening (trim (firstWord text).2)
  else if (firstWord text).1 = "else".toList then .dividing
  else if (firstWord text).1 = "end".toList then .closing
  else .content

def isOpening : Role → Bool
  | opening _ => true
  | _ => false

end Role

namespace Token

def role : Token → Role
  | .text .. => .content
  | .action words _ _ => .ofAction words

def start : Token → Nat
  | .text _ start => start
  | .action _ start _ => start

/-- The offset just past the token. -/
def stop : Token → Nat
  | .text chars start => start + byteLength chars
  | .action _ _ stop => stop

def span (t : Token) : Span := .between t.start t.stop

/-- The nodes that a token gives by itself: what else is said in an action that begins another branch is
kept. -/
def leaves : Token → List Node
  | .text chars start => [.literal chars ⟨start, byteLength chars⟩]
  | .action words start stop =>
    match Role.ofAction words with
    | .opening _ => []
    | .dividing =>
      if trim (firstWord words).2 = [] then [] else [.unsupported words (.between start stop)]
    | .closing => []
    | .content => [.ofAction words (.between start stop)]

end Token

/-- How many of the tokens open a conditional. -/
def openings (tokens : List Token) : Nat := tokens.countP fun t => t.role.isOpening

/-- How many of the tokens close a conditional. -/
def closings (tokens : List Token) : Nat := tokens.countP fun t => t.role = .closing

/-- Conditionals that are open before the tokens are so behind them. -/
def StaysOpen (tokens : List Token) : Prop := ∀ p ∈ tokens.inits, closings p ≤ openings p

instance (tokens : List Token) : Decidable (StaysOpen tokens) :=
  inferInstanceAs (Decidable (∀ p ∈ tokens.inits, closings p ≤ openings p))

/-- The tokens begin the other branch of the conditional that they are in. -/
def IsDivided (tokens : List Token) : Prop :=
  ∃ p ∈ tokens.inits, p.getLast?.map Token.role = some .dividing ∧ closings p = openings p

instance (tokens : List Token) : Decidable (IsDivided tokens) :=
  inferInstanceAs (Decidable (∃ p ∈ tokens.inits, _))

/-- A branch of a conditional. -/
structure Branch where
  /-- The offset of the action that opens the conditional. -/
  start : Nat
  /-- The branch is the other one. -/
  isOther : Bool
  deriving DecidableEq, Repr

/-- The branches in which the place behind the tokens lies, the innermost last. -/
def enclosing : List Token → List Branch
  | [] => []
  | t :: later =>
    if t.role.isOpening ∧ StaysOpen later then
      ⟨t.start, IsDivided later⟩ :: enclosing later
    else enclosing later

variable {s later : List Token} {t : Token}

section Counting

@[simp] theorem openings_nil : openings [] = 0 := rfl

@[simp] theorem closings_nil : closings [] = 0 := rfl

theorem openings_cons : openings (t :: s) = openings s + if t.role.isOpening then 1 else 0 := by
  simp [openings, List.countP_cons]

theorem closings_cons : closings (t :: s) = closings s + if t.role = .closing then 1 else 0 := by
  simp [closings, List.countP_cons]

@[simp] theorem openings_append : openings (s ++ later) = openings s + openings later := by
  simp [openings]

@[simp] theorem closings_append : closings (s ++ later) = closings s + closings later := by
  simp [closings]

end Counting

theorem staysOpen_iff : StaysOpen s ↔ ∀ p, p <+: s → closings p ≤ openings p := by
  simp only [StaysOpen, List.mem_inits]

theorem StaysOpen.of_append (h : StaysOpen (s ++ later)) : StaysOpen s := by
  rw [staysOpen_iff] at h ⊢
  exact fun p hp => h p (hp.trans (List.prefix_append s later))

theorem StaysOpen.append (hs : StaysOpen s) (h : StaysOpen later) : StaysOpen (s ++ later) := by
  rw [staysOpen_iff] at hs h ⊢
  intro p hp
  rcases List.prefix_or_prefix_of_prefix hp (List.prefix_append s later) with hps | ⟨q, rfl⟩
  · exact hs p hps
  · have hfirst := hs s List.prefix_rfl
    have hrest := h q ((List.prefix_append_right_inj s).mp hp)
    simp only [openings_append, closings_append]
    omega

/-- One more conditional may end where one was begun. -/
theorem StaysOpen.snoc (hs : StaysOpen s) (hlt : closings s < openings s) (t : Token) :
    StaysOpen (s ++ [t]) := by
  rw [staysOpen_iff] at hs ⊢
  intro p hp
  rcases List.prefix_concat_iff.mp hp with rfl | hp
  · simp only [openings_append, closings_append, openings_cons, closings_cons]
    simp
    split <;> omega
  · exact hs p hp

theorem staysOpen_nil : StaysOpen [] := by
  simp [staysOpen_iff]

theorem staysOpen_singleton (ht : t.role ≠ .closing) : StaysOpen [t] := by
  rw [staysOpen_iff]
  intro p hp
  have hle : closings p ≤ closings [t] := hp.sublist.countP_le
  simp [closings_cons, ht] at hle
  omega

theorem not_staysOpen_of_closing (hs : closings s = openings s) (ht : t.role = .closing)
    (later : List Token) : ¬ StaysOpen (s ++ t :: later) := by
  intro h
  have hle := staysOpen_iff.mp h (s ++ [t]) ⟨later, by simp⟩
  simp [openings_cons, closings_cons, ht, Role.isOpening] at hle
  omega

theorem isDivided_iff : IsDivided s ↔ ∃ before d after, s = before ++ d :: after ∧
    d.role = .dividing ∧ closings before = openings before := by
  constructor
  · rintro ⟨p, hp, hlast, hlevel⟩
    obtain ⟨d, hd, hrole⟩ := Option.map_eq_some_iff.mp hlast
    obtain ⟨before, rfl⟩ := List.getLast?_eq_some_iff.mp hd
    obtain ⟨after, rfl⟩ := (List.mem_inits _ _).mp hp
    refine ⟨before, d, after, by simp, hrole, ?_⟩
    simpa [openings_cons, closings_cons, hrole, Role.isOpening] using hlevel
  · rintro ⟨before, d, after, rfl, hrole, hlevel⟩
    refine ⟨before ++ [d], (List.mem_inits _ _).mpr ⟨after, by simp⟩, by simp [hrole], ?_⟩
    simpa [openings_cons, closings_cons, hrole, Role.isOpening] using hlevel

theorem IsDivided.append (hs : IsDivided s) (later : List Token) : IsDivided (s ++ later) := by
  rw [isDivided_iff] at hs ⊢
  obtain ⟨before, d, after, rfl, hrole, hlevel⟩ := hs
  exact ⟨before, d, after ++ later, by simp, hrole, hlevel⟩

/-- Within a conditional nothing divides what is around it. -/
theorem not_isDivided_cons (ht : t.role.isOpening = true) (hs : StaysOpen s) :
    ¬ IsDivided (t :: s) := by
  rw [isDivided_iff]
  rintro ⟨before, d, after, heq, hrole, hlevel⟩
  cases before with
  | nil =>
    obtain ⟨rfl, -⟩ := List.cons.inj heq
    simp [hrole, Role.isOpening] at ht
  | cons u before =>
    obtain ⟨rfl, rfl⟩ := List.cons.inj heq
    have hle := staysOpen_iff.mp hs before (List.prefix_append before _)
    have hclosing : t.role ≠ .closing := by
      intro h
      simp [h, Role.isOpening] at ht
    simp [openings_cons, closings_cons, ht, hclosing] at hlevel
    omega

theorem isDivided_append (hs : StaysOpen s) (h : StaysOpen later) (hd : ¬ IsDivided later) :
    IsDivided (s ++ later) ↔ IsDivided s := by
  refine ⟨fun hall => ?_, fun hs => hs.append later⟩
  obtain ⟨before, d, after, heq, hrole, hlevel⟩ := isDivided_iff.mp hall
  -- Either the dividing action is among the later tokens, with the others open around it, or not.
  rcases List.append_eq_append_iff.mp heq with ⟨mid, rfl, rfl⟩ | ⟨mid, rfl, hmid⟩
  · have hfirst := staysOpen_iff.mp hs s List.prefix_rfl
    have hrest := staysOpen_iff.mp h mid (List.prefix_append mid _)
    simp only [openings_append, closings_append] at hlevel
    exact absurd (isDivided_iff.mpr ⟨mid, d, after, rfl, hrole, by omega⟩) hd
  · cases mid with
    | nil =>
      rw [List.nil_append] at hmid
      subst hmid
      have hnone : IsDivided (d :: after) := isDivided_iff.mpr ⟨[], d, after, rfl, hrole, rfl⟩
      exact absurd hnone hd
    | cons e mid =>
      obtain ⟨rfl, -⟩ := List.cons.inj hmid
      exact isDivided_iff.mpr ⟨before, d, mid, rfl, hrole, hlevel⟩

theorem isDivided_snoc (ht : t.role ≠ .dividing) : IsDivided (s ++ [t]) ↔ IsDivided s := by
  refine ⟨fun hall => ?_, fun hs => hs.append [t]⟩
  obtain ⟨before, d, after, heq, hrole, hlevel⟩ := isDivided_iff.mp hall
  rcases List.eq_nil_or_concat after with rfl | ⟨after, u, rfl⟩
  · obtain ⟨-, hd⟩ := List.append_inj' heq rfl
    obtain rfl := List.singleton_inj.mp hd
    exact absurd hrole ht
  · have hsplit : s ++ [t] = (before ++ d :: after) ++ [u] := by simpa using heq
    obtain ⟨rfl, -⟩ := List.append_inj' hsplit rfl
    exact isDivided_iff.mpr ⟨before, d, after, rfl, hrole, hlevel⟩

theorem enclosing_opening (ht : t.role.isOpening = true) (hs : StaysOpen s) :
    enclosing (t :: s) = ⟨t.start, IsDivided s⟩ :: enclosing s := by
  rw [enclosing, if_pos ⟨ht, hs⟩]

theorem enclosing_cons_of_not_opening (ht : t.role.isOpening = false) (s : List Token) :
    enclosing (t :: s) = enclosing s := by
  simp [enclosing, ht]

/-- What neither ends nor divides a conditional adds its own branches to those around it. -/
theorem enclosing_append (h : StaysOpen later) (hd : ¬ IsDivided later) (s : List Token) :
    enclosing (s ++ later) = enclosing s ++ enclosing later := by
  induction s with
  | nil => rfl
  | cons t s ih =>
    rw [List.cons_append, enclosing, enclosing, ih]
    by_cases hs : StaysOpen s
    · simp only [hs, hs.append h, isDivided_append hs h hd]
      split <;> rfl
    · have hall : ¬ StaysOpen (s ++ later) := fun hall => hs hall.of_append
      simp [hs, hall]

theorem enclosing_append_of_eq_nil (hs : enclosing s = []) (later : List Token) :
    enclosing (s ++ later) = enclosing later := by
  induction s with
  | nil => rfl
  | cons t s ih =>
    rw [enclosing] at hs
    split at hs
    · contradiction
    · rename_i hclosed
      have hall : ¬ (t.role.isOpening ∧ StaysOpen (s ++ later)) :=
        fun h => hclosed ⟨h.1, h.2.of_append⟩
      rw [List.cons_append, enclosing, if_neg hall, ih hs]

end ReleaseInstaller.NameTemplate
