import Mathlib.Data.Option.Basic
import Mathlib.Logic.Function.Basic
import ReleaseInstaller.Proofs.Shell.Expansion
import ReleaseInstaller.Proofs.Shell.Word
import ReleaseInstaller.Proofs.Text.Blank
import ReleaseInstaller.Proofs.Text.Split
import ReleaseInstaller.Text.Basic

/-! The `case` statements of a function, as a shell reads them from the lines of a script and runs them.
Patterns are literal: the first arm whose pattern is the subject's value assigns its value. -/
namespace ReleaseInstaller.Shell
open Text

/-- The line that opens the definition of a function. -/
def opening (name : String) : List Char := (name ++ "() \x7b").toList

def closing : List Char := ['\x7d']

def upToClosing? : List (List Char) → Option (List (List Char))
  | [] => none
  | line :: rest => if line = closing then some [] else (upToClosing? rest).map (line :: ·)

/-- The lines of a function. A later definition replaces an earlier one. -/
def body? (name : String) : List (List Char) → Option (List (List Char))
  | [] => none
  | line :: rest =>
    body? name rest <|> if line = opening name then upToClosing? rest else none

structure CaseArm where
  pattern : String
  name : String
  value : String
  deriving DecidableEq, Repr

structure CaseStatement where
  /-- The variable whose value decides. -/
  subject : String
  arms : List CaseArm
  deriving DecidableEq, Repr

/-- The word that closes a `case` statement where an arm could begin. -/
def caseEnd : String := "esac"

/-- Reads `pattern) name=value ;;`. -/
def caseArm? (line : List Char) : Option CaseArm := do
  let pattern := String.ofList (line.takeWhile isWordChar)
  let rest ← afterLead? ") " (line.dropWhile isWordChar)
  let (name, rest) ← splitOnce? '=' rest
  let value ← beforeTail? " ;;" rest
  guard (isWord pattern && isVariableName name && isWord (String.ofList value))
  return ⟨pattern, String.ofList name, String.ofList value⟩

/-- Reads `$name` in quotation marks, or `${name}`. -/
def subject? (word : List Char) : Option (List Char) :=
  ((afterLead? "\"$" word).bind (beforeTail? "\"")) <|>
    ((afterLead? "$\x7b" word).bind (beforeTail? "\x7d"))

/-- Reads the line that opens a `case` statement. -/
def caseOpening? (line : List Char) : Option CaseStatement := do
  let word ← beforeTail? " in" (← afterLead? "case " line)
  let subject ← subject? word
  return ⟨String.ofList subject, []⟩

/-- Reads the rest of a function, which may begin within a `case` statement. Nothing but its end may
stand on the line that closes a statement. -/
def readCases : Option CaseStatement → List (List Char) → Option (List CaseStatement)
  | none, [] => some []
  | some _, [] => none
  | none, line :: rest => readCases (caseOpening? (trimStart line)) rest
  | some s, line :: rest =>
    if (trimStart line).takeWhile isWordChar = caseEnd.toList then
      if (trimStart line).dropWhile isWordChar = [] then (readCases none rest).map (s :: ·) else none
    else do
      let arm ← caseArm? (trimStart line)
      readCases (some { s with arms := s.arms ++ [arm] }) rest

/-- The `case` statements of a function of the script, if they can be read. -/
def casesOf (name script : String) : Option (List CaseStatement) :=
  (body? name (lines script.toList)).bind (readCases none)

/-- The variables after a statement. -/
def CaseStatement.run (env : Environment) (s : CaseStatement) : Environment :=
  match s.arms.find? fun a => a.pattern == env s.subject with
  | some a => Function.update env a.name a.value
  | none => env

def runCases (env : Environment) (statements : List CaseStatement) : Environment :=
  statements.foldl CaseStatement.run env

/-- The arm as a line of a script. -/
def CaseArm.line (a : CaseArm) : List Char :=
  "    ".toList ++ (a.pattern.toList ++ (") ".toList ++ (a.name.toList ++
    '=' :: (a.value.toList ++ " ;;".toList))))

/-- A pattern and a value without a meaning to the shell, and a variable to assign. -/
structure CaseArm.IsLiteral (a : CaseArm) : Prop where
  pattern : isWord a.pattern = true
  name : isVariableName a.name.toList = true
  value : isWord a.value = true

theorem eq_notMem_of_isVariableName {name : List Char} (h : isVariableName name = true) :
    '=' ∉ name := by
  cases name with
  | nil => simp
  | cons d rest =>
    simp only [isVariableName, Bool.and_eq_true, List.all_eq_true] at h
    rw [List.mem_cons, not_or]
    constructor
    · rintro rfl
      exact absurd h.1 (by decide)
    · intro hm
      exact absurd (h.2 _ hm) (by decide)

namespace CaseArm

variable {a : CaseArm}

theorem trimStart_line (h : a.IsLiteral) : trimStart a.line =
    a.pattern.toList ++ (") ".toList ++ (a.name.toList ++ '=' :: (a.value.toList ++ " ;;".toList))) := by
  obtain ⟨hne, hword⟩ := isWord_iff.mp h.pattern
  obtain ⟨c, rest, hp⟩ := List.exists_cons_of_ne_nil (mt String.toList_eq_nil_iff.mp hne)
  have hc : isBlank c = false := isBlank_of_isWordChar (hword c (by simp [hp]))
  have hblanks : ∀ x ∈ "    ".toList, isBlank x = true :=
    List.all_eq_true.mp (by decide)
  rw [trimStart, line, List.dropWhile_append_of_pos hblanks, hp, List.cons_append,
    List.dropWhile_cons_of_neg (by simp [hc])]

/-- The pattern is the first word of its line. -/
theorem takeWhile_line (h : a.IsLiteral) :
    (trimStart a.line).takeWhile isWordChar = a.pattern.toList := by
  have hstop : ∀ rest, List.takeWhile isWordChar (") ".toList ++ rest) = [] := fun rest => rfl
  rw [trimStart_line h, List.takeWhile_append_of_pos (isWord_iff.mp h.pattern).2, hstop,
    List.append_nil]

theorem dropWhile_line (h : a.IsLiteral) : (trimStart a.line).dropWhile isWordChar =
    ") ".toList ++ (a.name.toList ++ '=' :: (a.value.toList ++ " ;;".toList)) := by
  rw [trimStart_line h, List.dropWhile_append_of_pos (isWord_iff.mp h.pattern).2]
  rfl

/-- The arm is read back. -/
theorem caseArm?_line (h : a.IsLiteral) : caseArm? (trimStart a.line) = some a := by
  have hname := splitOnce?_append (eq_notMem_of_isVariableName h.name)
    (a.value.toList ++ " ;;".toList)
  have hvalue : beforeTail? " ;;" (a.value.toList ++ " ;;".toList) = some a.value.toList :=
    beforeTail?_eq_some_iff.mpr rfl
  simp only [caseArm?, takeWhile_line h, dropWhile_line h, afterLead?_eq_some_iff.mpr rfl, hname,
    hvalue, Option.bind_eq_bind, Option.bind_some, String.ofList_toList, h.pattern, h.name, h.value]
  rfl

end CaseArm

section Reading
variable {s : CaseStatement} {arms : List CaseArm}

/-- Arms are read one by one, as long as none of their patterns closes the statement. -/
theorem readCases_arms (h : ∀ a ∈ arms, a.IsLiteral) (hend : ∀ a ∈ arms, a.pattern ≠ caseEnd)
    (rest : List (List Char)) : readCases (some s) (arms.map CaseArm.line ++ rest) =
      readCases (some { s with arms := s.arms ++ arms }) rest := by
  induction arms generalizing s with
  | nil => simp
  | cons a arms ih =>
    obtain ⟨ha, harms⟩ := List.forall_mem_cons.mp h
    obtain ⟨hae, hends⟩ := List.forall_mem_cons.mp hend
    have hne : a.pattern.toList ≠ caseEnd.toList := mt String.toList_inj.mp hae
    rw [List.map_cons, List.cons_append, readCases, CaseArm.takeWhile_line ha, if_neg hne,
      CaseArm.caseArm?_line ha, Option.bind_eq_bind, Option.bind_some, ih harms hends]
    simp

/-- A pattern that is the closing word cannot be read: the statement ends before it has an arm. -/
theorem readCases_eq_none (h : ∀ a ∈ arms, a.IsLiteral) (hend : ∃ a ∈ arms, a.pattern = caseEnd)
    (rest : List (List Char)) : readCases (some s) (arms.map CaseArm.line ++ rest) = none := by
  induction arms generalizing s with
  | nil => simp at hend
  | cons a arms ih =>
    obtain ⟨ha, harms⟩ := List.forall_mem_cons.mp h
    rw [List.map_cons, List.cons_append, readCases, CaseArm.takeWhile_line ha]
    by_cases hae : a.pattern = caseEnd
    · have hrest : (trimStart a.line).dropWhile isWordChar ≠ [] := by
        rw [CaseArm.dropWhile_line ha]
        simp
      rw [if_pos (congrArg String.toList hae), if_neg hrest]
    · have hends : ∃ a ∈ arms, a.pattern = caseEnd := by
        obtain ⟨b, hb, hbe⟩ := hend
        rcases List.mem_cons.mp hb with rfl | hb
        · exact absurd hbe hae
        · exact ⟨b, hb, hbe⟩
      rw [if_neg (mt String.toList_inj.mp hae), CaseArm.caseArm?_line ha, Option.bind_eq_bind,
        Option.bind_some]
      exact ih harms hends

theorem readCases_end (rest : List (List Char)) : readCases (some s) ("  esac".toList :: rest) =
    (readCases none rest).map (s :: ·) := by
  have htake : (trimStart "  esac".toList).takeWhile isWordChar = caseEnd.toList := by decide
  have hdrop : (trimStart "  esac".toList).dropWhile isWordChar = [] := by decide
  rw [readCases, if_pos htake, if_pos hdrop]

theorem readCases_skip {line : List Char} (h : caseOpening? (trimStart line) = none)
    (rest : List (List Char)) : readCases none (line :: rest) = readCases none rest := by
  rw [readCases, h]

end Reading

section Body
variable {name : String} {inner before after : List (List Char)}

theorem upToClosing?_append (h : closing ∉ inner) (after : List (List Char)) :
    upToClosing? (inner ++ closing :: after) = some inner := by
  induction inner with
  | nil => simp [upToClosing?]
  | cons line inner ih =>
    rw [List.mem_cons, not_or] at h
    rw [List.cons_append, upToClosing?, if_neg (Ne.symm h.1), ih h.2]
    rfl

theorem body?_eq_none (h : opening name ∉ after) : body? name after = none := by
  induction after with
  | nil => rfl
  | cons line after ih =>
    rw [List.mem_cons, not_or] at h
    rw [body?, ih h.2, if_neg (Ne.symm h.1)]
    rfl

/-- The lines of the last definition, whatever comes before it. -/
theorem body?_append (hinner : closing ∉ inner) (hlast : opening name ∉ inner ++ closing :: after)
    (before : List (List Char)) :
    body? name (before ++ opening name :: (inner ++ closing :: after)) = some inner := by
  induction before with
  | nil =>
    rw [List.nil_append, body?, body?_eq_none hlast, if_pos rfl, upToClosing?_append hinner]
    rfl
  | cons line before ih =>
    rw [List.cons_append, body?, ih]
    rfl

end Body

end ReleaseInstaller.Shell
