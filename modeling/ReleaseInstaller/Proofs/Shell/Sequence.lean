import ReleaseInstaller.Proofs.Shell.Case

/-! The commands of a script that have to do with given variables, one after the other. What comes
before the bracket of an arm is a pattern here whatever it is, so the word that closes a `case`
statement has a meaning only where it stands alone. -/
namespace ReleaseInstaller.Shell
open Text

/-- Reads the rest of a function, which may begin within a `case` statement. -/
def readLiterally : Option CaseStatement → List (List Char) → Option (List CaseStatement)
  | none, [] => some []
  | some _, [] => none
  | none, line :: rest => readLiterally (caseOpening? (trimStart line)) rest
  | some s, line :: rest =>
    if trimStart line = caseEnd.toList then (readLiterally none rest).map (s :: ·)
    else do
      let arm ← caseArm? (trimStart line)
      readLiterally (some { s with arms := s.arms ++ [arm] }) rest

/-- The `case` statements of a function of the script, with literal patterns. -/
def literalCasesOf (name script : String) : Option (List CaseStatement) :=
  (body? name (lines script.toList)).bind (readLiterally none)

section Reading
variable {s : CaseStatement} {arms : List CaseArm}

/-- Where a shell can read the statements, it reads the same ones. -/
theorem readLiterally_of_readCases {current : Option CaseStatement} {ls : List (List Char)}
    {ss : List CaseStatement} (h : readCases current ls = some ss) :
    readLiterally current ls = some ss := by
  induction current, ls using readCases.induct generalizing ss with
  | case1 => exact h
  | case2 => contradiction
  | case3 line rest ih => exact ih h
  | case4 s line rest hword hrest ih =>
    rw [readCases, if_pos hword, if_pos hrest] at h
    obtain ⟨later, hlater, rfl⟩ := Option.map_eq_some_iff.mp h
    have hline : trimStart line = caseEnd.toList := by
      rw [← List.takeWhile_append_dropWhile (p := isWordChar) (l := trimStart line), hword, hrest,
        List.append_nil]
    rw [readLiterally, if_pos hline, ih hlater]
    rfl
  | case5 s line rest hword hrest =>
    rw [readCases, if_pos hword, if_neg hrest] at h
    contradiction
  | case6 s line rest hword ih =>
    have hline : trimStart line ≠ caseEnd.toList := by
      intro heq
      rw [heq] at hword
      exact hword (by decide)
    rw [readCases, if_neg hword] at h
    obtain ⟨arm, harm, h⟩ := Option.bind_eq_some_iff.mp h
    rw [readLiterally, if_neg hline, harm]
    exact ih arm h

theorem literalCasesOf_of_casesOf {name script : String} {ss : List CaseStatement}
    (h : casesOf name script = some ss) : literalCasesOf name script = some ss := by
  obtain ⟨body, hbody, hread⟩ := Option.bind_eq_some_iff.mp h
  exact Option.bind_eq_some_iff.mpr ⟨body, hbody, readLiterally_of_readCases hread⟩

/-- The line of an arm goes on behind its pattern. -/
theorem CaseArm.trimStart_line_ne {a : CaseArm} (h : a.IsLiteral) :
    trimStart a.line ≠ caseEnd.toList := by
  intro heq
  have hdrop := CaseArm.dropWhile_line h
  have hend : caseEnd.toList.dropWhile isWordChar = [] := by decide
  rw [heq, hend] at hdrop
  exact absurd hdrop.symm (by simp)

/-- Arms are read one by one, whatever their patterns are. -/
theorem readLiterally_arms (h : ∀ a ∈ arms, a.IsLiteral) (rest : List (List Char)) :
    readLiterally (some s) (arms.map CaseArm.line ++ rest) =
      readLiterally (some { s with arms := s.arms ++ arms }) rest := by
  induction arms generalizing s with
  | nil => simp
  | cons a arms ih =>
    obtain ⟨ha, harms⟩ := List.forall_mem_cons.mp h
    rw [List.map_cons, List.cons_append, readLiterally, if_neg (CaseArm.trimStart_line_ne ha),
      CaseArm.caseArm?_line ha, Option.bind_eq_bind, Option.bind_some, ih harms]
    simp

theorem readLiterally_end (rest : List (List Char)) :
    readLiterally (some s) ("  esac".toList :: rest) = (readLiterally none rest).map (s :: ·) := by
  have hline : trimStart "  esac".toList = caseEnd.toList := by decide
  rw [readLiterally, if_pos hline]

theorem readLiterally_skip {line : List Char} (h : caseOpening? (trimStart line) = none)
    (rest : List (List Char)) : readLiterally none (line :: rest) = readLiterally none rest := by
  rw [readLiterally, h]

end Reading

/-- A command, as far as it has to do with variables. -/
inductive Command where
  | assign (name value : String)
  /-- Assigns what a function prints. -/
  | capture (name function : String)
  | call (function : String)
  deriving DecidableEq, Repr

/-- Reads `name=word`, `name=$(function)`, or the name of a function alone. -/
def command? (line : List Char) : Option Command :=
  match splitOnce? '=' line with
  | none => if isVariableName line then some (.call (String.ofList line)) else none
  | some (name, value) =>
    if isWord (String.ofList value) then
      some (.assign (String.ofList name) (String.ofList value))
    else
      ((afterLead? "$(" value).bind (beforeTail? ")")).map fun function =>
        .capture (String.ofList name) (String.ofList function)

/-- The variables after a command, where `outputs` is what functions print. A call runs the `case`
statements of the function in the script, and fails if they cannot be read. -/
def Command.run (script : String) (outputs : String → String) (env : Environment) :
    Command → Option Environment
  | assign name value => some (Function.update env name value)
  | capture name function => some (Function.update env name (outputs function))
  | call function => (literalCasesOf function script).map (runCases env)

/-- The variables after commands, if all of them can be read and run. -/
def runLines (script : String) (outputs : String → String) (env : Environment)
    (ls : List (List Char)) : Option Environment :=
  ls.foldlM (fun env line => (command? line).bind (Command.run script outputs env)) env

/-- The line assigns one of the variables, or calls one of the functions. The pattern of an arm may
look like an assignment. -/
def concerns (names functions : List String) (line : List Char) : Bool :=
  (caseArm? line).isNone && (functions.any (·.toList == line) ||
    names.any fun name => (name.toList ++ ['=']).isPrefixOf line)

/-- The commands of the script that concern the variables and functions, wherever they stand. -/
def commandsOn (names functions : List String) (script : String) : List (List Char) :=
  ((lines script.toList).map trimStart).filter (concerns names functions)

theorem command?_assign {name value : String} (hname : isVariableName name.toList = true)
    (hvalue : isWord value = true) :
    command? (name ++ "=" ++ value).toList = some (.assign name value) := by
  have hsplit : splitOnce? '=' (name ++ "=" ++ value).toList = some (name.toList, value.toList) := by
    rw [String.toList_append, String.toList_append, List.append_assoc]
    exact splitOnce?_append (eq_notMem_of_isVariableName hname) value.toList
  rw [command?, hsplit]
  simp only [String.ofList_toList, hvalue, if_true]

section Running
variable {script : String} {outputs : String → String} {env env' : Environment}

theorem Command.run_call {function : String} {ss : List CaseStatement}
    (h : literalCasesOf function script = some ss) :
    (Command.call function).run script outputs env = some (runCases env ss) := by
  rw [Command.run, h]
  rfl

theorem runLines_cons {line : List Char} {c : Command} (hline : command? line = some c)
    (hrun : c.run script outputs env = some env') (rest : List (List Char)) :
    runLines script outputs env (line :: rest) = runLines script outputs env' rest := by
  rw [runLines, List.foldlM_cons, hline, Option.bind_some, hrun]
  rfl

end Running

end ReleaseInstaller.Shell
