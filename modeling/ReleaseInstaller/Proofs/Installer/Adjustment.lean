import Mathlib.Data.List.TakeWhile
import ReleaseInstaller.Proofs.Dictionary
import ReleaseInstaller.Proofs.Installer.Verdict
import ReleaseInstaller.Proofs.Release.Defaults
import ReleaseInstaller.Proofs.Shell.Sequence

/-! What a script makes of the detected platform: the format of the archive, and the names of system and
architecture in archive names. -/
namespace ReleaseInstaller.Installer
open Text Shell NameTemplate Release

variable {i : Installer} {env : Environment}

/-- The variables that a script adjusts to the platform. -/
def adjustedNames : List String := ["FORMAT", "OS", "ARCH"]

/-- The functions that adjust them. -/
def adjusters : List String := ["adjust_format", "adjust_os", "adjust_arch"]

/-- The commands that set the variables and then adjust them. -/
def adjustingCommands (format : String) : List (List Char) :=
  ["FORMAT=" ++ format, "OS=$(uname_os)", "ARCH=$(uname_arch)", "adjust_format", "adjust_os",
    "adjust_arch"].map String.toList

section Commands
variable {ls : List Line} {css : List (List Char)} {l : Line}

/-- A line that leaves the adjusted variables alone. -/
def IsIdle (l : Line) : Prop := concerns adjustedNames adjusters (trimStart l.text) = false

/-- The commands on some lines of a script. -/
def commandsIn (ls : List Line) : List (List Char) :=
  (ls.map fun l => trimStart l.text).filter (concerns adjustedNames adjusters)

theorem commandsIn_append (ls ls' : List Line) :
    commandsIn (ls ++ ls') = commandsIn ls ++ commandsIn ls' := by
  simp only [commandsIn, List.map_append, List.filter_append]

theorem commandsIn_eq_nil (h : ∀ l ∈ ls, IsIdle l) : commandsIn ls = [] := by
  rw [commandsIn, List.filter_eq_nil_iff, List.forall_mem_map]
  exact fun l hl => ne_true_of_eq_false (h l hl)

theorem commandsIn_eq_of_areFixed {commands : List (List Char)}
    (h : AreFixed (fun _ => true) ls css)
    (hcss : (css.map trimStart).filter (concerns adjustedNames adjusters) = commands) :
    commandsIn ls = commands := by
  rw [← hcss, ← h.map_text, List.map_map]
  rfl

theorem isIdle_of_areFixed
    (h : AreFixed (fun cs => !concerns adjustedNames adjusters (trimStart cs)) ls css) :
    ∀ l ∈ ls, IsIdle l :=
  fun l hl => Bool.not_inj (h.forall_text l hl)

/-- The adjusted variables and the functions that adjust them begin with one of four letters. -/
theorem isIdle_of_head {c : Char} (h : (trimStart l.text).head? = some c)
    (hc : c ∉ ['F', 'O', 'A', 'a']) : IsIdle l := by
  obtain ⟨rest, htext⟩ := List.head?_eq_some_iff.mp h
  simp only [List.mem_cons, List.not_mem_nil, or_false, not_or] at hc
  obtain ⟨hF, hO, hA, ha⟩ := hc
  rw [IsIdle, htext, concerns, Bool.and_eq_false_iff, Bool.or_eq_false_iff]
  right
  simp [adjustedNames, adjusters, List.isPrefixOf_cons_cons, Ne.symm hF, Ne.symm hO, Ne.symm hA,
    Ne.symm ha]

theorem caseArm?_eq_none_of_isWord {s : String} (h : isWord s = true) : caseArm? s.toList = none := by
  have hrest : s.toList.dropWhile isWordChar = [] :=
    List.dropWhile_eq_nil_iff.mpr (isWord_iff.mp h).2
  rw [caseArm?, hrest]
  rfl

theorem isIdle_of_line {a : CaseArm} (h : a.IsLiteral) (hl : l.text = a.line) : IsIdle l := by
  rw [IsIdle, hl, concerns, CaseArm.caseArm?_line h]
  rfl

theorem isIdle_fixed {s : String} (h : concerns adjustedNames adjusters (trimStart s.toList) = false) :
    IsIdle [.fixed s] := by
  rw [IsIdle, text_fixed]
  exact h

end Commands

section Parts

theorem usage_isIdle (h : i.IsInert) : ∀ l ∈ usage i, IsIdle l := by
  have hname : IsIdle [.fixed "$this: download prebuilt binaries for ", .value i.owner, .fixed "/",
      .value i.repo] :=
    isIdle_of_head rfl (by decide)
  have hpage : IsIdle [.fixed "   ", .value i.repoUrl, .fixed "/releases"] := by
    refine isIdle_of_head (c := 'h') ?_ (by decide)
    simp only [text_cons, Piece.text, h.repoUrl, String.toList_append]
    rfl
  simp only [usage, List.forall_mem_append, List.forall_mem_singleton]
  refine ⟨⟨⟨⟨?_, hname⟩, ?_⟩, hpage⟩, ?_⟩
  all_goals exact isIdle_of_areFixed (by repeat constructor)

theorem arguments_isIdle : ∀ l ∈ arguments, IsIdle l := isIdle_of_areFixed (by repeat constructor)

theorem sourceDirectory_isIdle (wrapped : Bool) : ∀ l ∈ sourceDirectory wrapped, IsIdle l := by
  cases wrapped <;> exact isIdle_of_areFixed (by repeat constructor)

theorem execution_isIdle (i : Installer) : ∀ l ∈ execution i, IsIdle l := by
  have hloop : IsIdle (binaryLoop i.binaries) := isIdle_of_head rfl (by decide)
  simp only [execution, List.forall_mem_append, List.forall_mem_singleton]
  refine ⟨⟨⟨⟨?_, sourceDirectory_isIdle i.wrapInDirectory⟩, ?_⟩, hloop⟩, ?_⟩
  all_goals exact isIdle_of_areFixed (by repeat constructor)

theorem platformCheck_isIdle (h : i.IsInert) : ∀ l ∈ platformCheck i, IsIdle l := by
  have hopen : IsIdle [.fixed ("  case " ++ "\"$platform\"" ++ " in")] := isIdle_fixed (by decide)
  have hend : IsIdle [.fixed "  esac"] := isIdle_fixed (by decide)
  have hsupported : ∀ l ∈ i.supported.map (platformArm "0"), IsIdle l := by
    rw [List.forall_mem_map]
    exact fun p hp => isIdle_of_line (h.isLiteral_supported _ (List.mem_map_of_mem hp))
      (text_platformArm "0" p)
  have hexcluded : ∀ l ∈ i.excluded.map (platformArm "1"), IsIdle l := by
    rw [List.forall_mem_map]
    exact fun p hp => isIdle_of_line (h.isLiteral_excluded _ (List.mem_map_of_mem hp))
      (text_platformArm "1" p)
  simp only [platformCheck, List.forall_mem_append]
  refine ⟨⟨⟨?_, caseOf_forall hopen hsupported hend⟩, optionalCaseOf_forall hopen hexcluded hend⟩, ?_⟩
  all_goals exact isIdle_of_areFixed (by repeat constructor)

theorem release_isIdle : ∀ l ∈ release, IsIdle l := isIdle_of_areFixed (by repeat constructor)

theorem adjustment_isIdle {opening : List String} {subject name : String} {as : List Arm}
    (hopening : ∀ l ∈ fixed opening, IsIdle l)
    (hsubject : concerns adjustedNames adjusters (trimStart ("  case " ++ subject ++ " in").toList) =
      false)
    (harms : ∀ a ∈ assignmentArms name as, a.IsLiteral) :
    ∀ l ∈ adjustment opening subject name as, IsIdle l := by
  have hend : IsIdle [.fixed "  esac"] := isIdle_fixed (by decide)
  have hlines : ∀ l ∈ as.map (assignmentArm name), IsIdle l := by
    rw [List.forall_mem_map]
    exact fun a ha => isIdle_of_line (harms _ (List.mem_map_of_mem ha)) (text_assignmentArm name a)
  simp only [adjustment, List.forall_mem_append]
  exact ⟨⟨hopening, optionalCaseOf_forall (isIdle_fixed hsubject) hlines hend⟩,
    isIdle_of_areFixed (by repeat constructor)⟩

theorem adjustments_isIdle (h : i.IsInert) : ∀ l ∈ adjustments i, IsIdle l := by
  simp only [adjustments, List.forall_mem_append]
  refine ⟨⟨adjustment_isIdle ?_ (by decide) h.isLiteral_formatOverrides,
    adjustment_isIdle ?_ (by decide) (h.isLiteral_replacements "OS" (by decide))⟩,
    adjustment_isIdle ?_ (by decide) (h.isLiteral_replacements "ARCH" (by decide))⟩
  all_goals exact isIdle_of_areFixed (by repeat constructor)

theorem toolbox_isIdle : ∀ l ∈ toolbox, IsIdle l := isIdle_of_areFixed (by repeat constructor)

theorem commandsIn_settings (h : i.IsInert) :
    commandsIn (settings i) = [("FORMAT=" ++ i.format).toList] := by
  have hproject : IsIdle [.fixed "PROJECT_NAME=\"", .value i.projectName, .fixed "\""] :=
    isIdle_of_head rfl (by decide)
  have howner : IsIdle [.fixed "OWNER=", .value i.owner] := by
    rw [IsIdle, concerns, Bool.and_eq_false_iff]
    exact .inr rfl
  have hrepo : IsIdle [.fixed "REPO=\"", .value i.repo, .fixed "\""] := isIdle_of_head rfl (by decide)
  have hbinary : IsIdle [.fixed "BINARY=", .value i.binary] := isIdle_of_head rfl (by decide)
  have hword : isWord ("FORMAT=" ++ i.format) = true := isWord_append (by decide) h.format
  have hconcerns : concerns adjustedNames adjusters ("FORMAT=" ++ i.format).toList = true := by
    rw [concerns, caseArm?_eq_none_of_isWord hword]
    simp [adjustedNames, adjusters]
  have hformat : trimStart (Line.text [.fixed "FORMAT=", .value i.format]) =
      ("FORMAT=" ++ i.format).toList := by
    rw [text_cons, text_cons, String.toList_append, ← List.append_nil i.format.toList]
    rfl
  simp only [commandsIn, settings, List.map_cons, List.map_nil]
  rw [List.filter_cons_of_neg (ne_true_of_eq_false hproject),
    List.filter_cons_of_neg (ne_true_of_eq_false howner),
    List.filter_cons_of_neg (ne_true_of_eq_false hrepo),
    List.filter_cons_of_neg (ne_true_of_eq_false hbinary), hformat,
    List.filter_cons_of_pos hconcerns, List.filter_nil]

theorem commandsIn_steps (h : i.IsInert) :
    commandsIn (steps i) = ["OS=$(uname_os)", "ARCH=$(uname_arch)", "adjust_format", "adjust_os",
      "adjust_arch"].map String.toList := by
  have harchive : ∀ l ∈ [[.value i.archiveName]], IsIdle l := by
    obtain ⟨e, he, -⟩ := h.archiveName
    rw [List.forall_mem_singleton]
    refine isIdle_of_head (c := 'N') ?_ (by decide)
    simp only [text_cons, Piece.text, he, String.toList_append]
    rfl
  have hchecksum : ∀ l ∈ [[.value i.checksumName]], IsIdle l := by
    obtain ⟨e, he, -⟩ := h.checksumName
    rw [List.forall_mem_singleton]
    refine isIdle_of_head (c := 'C') ?_ (by decide)
    simp only [text_cons, Piece.text, he, String.toList_append]
    rfl
  simp only [steps, commandsIn_append, commandsIn_eq_nil harchive, commandsIn_eq_nil hchecksum,
    List.append_nil]
  -- All commands come before the names of the archive and of the list of checksums.
  rw [← List.append_nil (List.map _ _), ← List.append_nil (List.map _ _)]
  refine congrArg₂ (· ++ ·) (congrArg₂ (· ++ ·) ?_ ?_) ?_
  all_goals exact commandsIn_eq_of_areFixed (by repeat constructor) (by decide)

theorem commandsIn_undatedLines (h : i.IsInert) :
    commandsIn i.undatedLines = adjustingCommands i.format := by
  have hremark : ∀ l ∈ fixed ["#", ""], IsIdle l := isIdle_of_areFixed (by repeat constructor)
  simp only [undatedLines, commandsIn_append, commandsIn_eq_nil hremark,
    commandsIn_eq_nil (usage_isIdle h), commandsIn_eq_nil arguments_isIdle,
    commandsIn_eq_nil (execution_isIdle i), commandsIn_eq_nil (platformCheck_isIdle h),
    commandsIn_eq_nil release_isIdle, commandsIn_eq_nil (adjustments_isIdle h),
    commandsIn_eq_nil toolbox_isIdle, commandsIn_settings h, commandsIn_steps h, List.nil_append]
  rfl

/-- A date within one line brings no commands along. -/
theorem commandsIn_lines (h : i.IsInert) : commandsIn i.lines = adjustingCommands i.format := by
  have hopening : ∀ l ∈ fixed ["#!/bin/sh", "set -e"], IsIdle l :=
    isIdle_of_areFixed (by repeat constructor)
  have hdated : ∀ l ∈ [i.datedLine], IsIdle l := by
    rw [List.forall_mem_singleton]
    refine isIdle_of_head (c := '#') ?_ (by decide)
    rw [text_datedLine h.version]
    rfl
  rw [lines_eq, commandsIn_append, commandsIn_append, commandsIn_eq_nil hopening,
    commandsIn_eq_nil hdated, commandsIn_undatedLines h, List.nil_append]
  rfl

/-- The commands are the last ones of the script, and the only ones unless the date is more than one
line. -/
theorem exists_commandsOn_script (h : i.IsInert) : ∃ before,
    commandsOn adjustedNames adjusters i.script = before ++ adjustingCommands i.format ∧
      (IsDate i.generatedAt → before = []) := by
  by_cases hdate : IsDate i.generatedAt
  · refine ⟨[], ?_, fun _ => rfl⟩
    rw [commandsOn, lines_script h hdate, List.map_map, List.nil_append]
    exact commandsIn_lines h
  · obtain ⟨before, hlines⟩ := exists_lines_script h
    refine ⟨(before.map trimStart).filter (concerns adjustedNames adjusters), ?_,
      fun hd => absurd hd hdate⟩
    rw [commandsOn, hlines, List.map_append, List.filter_append, List.map_map,
      ← commandsIn_undatedLines h]
    rfl

end Parts

section Statements
variable {subject word name remark : String} {as : List Arm}

/-- Whatever the patterns are, the arms are read from the function. -/
theorem readLiterally_adjustmentBody
    (hopen : caseOpening? (trimStart ("  case " ++ word ++ " in").toList) = some ⟨subject, []⟩)
    (hremark : caseOpening? (trimStart remark.toList) = none)
    (harms : ∀ a ∈ assignmentArms name as, a.IsLiteral) :
    readLiterally none ((adjustmentBody remark word name as).map Line.text) =
      some (optionalStatement subject (assignmentArms name as)) := by
  have hfirst : (fixed [remark]).map Line.text = [remark.toList] := by simp [fixed, text_fixed]
  have hlast : (fixed ["  true"]).map Line.text = ["  true".toList] := by simp [fixed, text_fixed]
  have htrue : readLiterally none ["  true".toList] = some [] := by decide
  have htext := map_text_assignmentArms name as
  simp only [adjustmentBody, List.map_append, hfirst, hlast, List.append_assoc, List.cons_append,
    List.nil_append]
  rw [readLiterally_skip hremark, optionalCaseOf_eq htext]
  cases as with
  | nil => exact htrue
  | cons a as =>
    have hne : assignmentArms name (a :: as) ≠ [] := List.cons_ne_nil _ _
    rw [if_neg hne, map_text_caseOf, htext, List.cons_append, readLiterally, hopen,
      List.append_assoc, readLiterally_arms harms, List.singleton_append, readLiterally_end, htrue]
    rfl

theorem literalCasesOf_adjusters (h : i.IsInert) :
    literalCasesOf "adjust_format" i.script =
      some (optionalStatement "OS" (assignmentArms "FORMAT" i.formatOverrides)) ∧
    literalCasesOf "adjust_os" i.script =
      some (optionalStatement "OS" (assignmentArms "OS" i.replacements)) ∧
    literalCasesOf "adjust_arch" i.script =
      some (optionalStatement "ARCH" (assignmentArms "ARCH" i.replacements)) := by
  obtain ⟨-, hformat, hsystem, harch⟩ := body?_tailored h
  simp only [literalCasesOf, hformat, hsystem, harch, Option.bind_some]
  exact ⟨readLiterally_adjustmentBody (by decide) (by decide) h.isLiteral_formatOverrides,
    readLiterally_adjustmentBody (by decide) (by decide) (h.isLiteral_replacements "OS" (by decide)),
    readLiterally_adjustmentBody (by decide) (by decide)
      (h.isLiteral_replacements "ARCH" (by decide))⟩

/-- The arms of a dictionary look the subject up. -/
theorem run_assignmentArms (env : Environment) (subject name : String) (d : Dictionary) :
    CaseStatement.run env ⟨subject, assignmentArms name (arms d)⟩ =
      Function.update env name ((d.find? (env subject)).getD (env name)) := by
  have hfind : ∀ entries : List (String × String),
      (assignmentArms name (entries.map fun e => ⟨e.1, e.2⟩)).find?
          (fun a => a.pattern == env subject) =
        (entries.lookup (env subject)).map fun value => ⟨env subject, name, value⟩ := by
    intro entries
    induction entries with
    | nil => rfl
    | cons e entries ih =>
      rw [Dictionary.lookup_cons_eq_ite]
      split
      · rename_i heq
        rw [heq]
        exact List.find?_cons_of_pos (beq_self_eq_true _)
      · rename_i hne
        rw [← ih]
        exact List.find?_cons_of_neg (by simpa using Ne.symm hne)
  rw [CaseStatement.run, arms, hfind, Dictionary.find?]
  cases d.entries.lookup (env subject) with
  | none => exact (Function.update_eq_self name env).symm
  | some value => rfl

end Statements

/-- The variables for the platform, as a release has them: everything is looked up under the names that
were detected. -/
def adjusted (a : Archive) (os arch : String) (env : Environment) : Environment := fun name =>
  if name = "FORMAT" then (a.formatOverrides.find? os).getD a.format
  else if name = "OS" then (a.replacements.find? os).getD os
  else if name = "ARCH" then (a.replacements.find? arch).getD arch
  else env name

theorem runLines_adjustingCommands (h : i.IsInert) {a : Archive} (hformat : i.format = a.format)
    (hformats : i.formatOverrides = arms a.formatOverrides)
    (hnames : i.replacements = arms a.replacements) (outputs : String → String) (env : Environment) :
    runLines i.script outputs env (adjustingCommands a.format) =
      some (adjusted a (outputs "uname_os") (outputs "uname_arch") env) := by
  obtain ⟨hadjustFormat, hadjustSystem, hadjustArch⟩ := literalCasesOf_adjusters h
  have hassign : command? ("FORMAT=" ++ a.format).toList = some (.assign "FORMAT" a.format) := by
    have hname : "FORMAT=" = "FORMAT" ++ "=" := by decide
    rw [hname]
    exact command?_assign (by decide) (hformat ▸ h.format)
  have hsystem : command? "OS=$(uname_os)".toList = some (.capture "OS" "uname_os") := by decide
  have harch : command? "ARCH=$(uname_arch)".toList = some (.capture "ARCH" "uname_arch") := by decide
  have hfirst : command? "adjust_format".toList = some (.call "adjust_format") := by decide
  have hsecond : command? "adjust_os".toList = some (.call "adjust_os") := by decide
  have hthird : command? "adjust_arch".toList = some (.call "adjust_arch") := by decide
  simp only [adjustingCommands, List.map_cons, List.map_nil]
  rw [runLines_cons hassign rfl, runLines_cons hsystem rfl, runLines_cons harch rfl,
    runLines_cons hfirst (Command.run_call hadjustFormat),
    runLines_cons hsecond (Command.run_call hadjustSystem),
    runLines_cons hthird (Command.run_call hadjustArch)]
  simp only [runCases_optionalStatement, hformats, hnames, run_assignmentArms]
  refine congrArg some (funext fun name => ?_)
  -- No function changes what a later one looks up.
  simp only [Function.update_apply, adjusted, String.reduceEq, if_true, if_false]
  by_cases hf : name = "FORMAT"
  · subst hf
    simp
  by_cases ho : name = "OS"
  · subst ho
    simp
  by_cases ha : name = "ARCH"
  · subst ha
    simp
  simp [hf, ho, ha]

/-- Run on any platform, the commands of a script leave in the variables what the release has for that
platform, also where a pattern is the word that closes a `case` statement. Of the formats that a
description gives for a system, the last one counts. -/
theorem exists_adjusted {r : Release} {archiveName checksumName : Assignment}
    (hr : r.validate = .ok ())
    (harchive : NameTemplate.assign archiveTarget r.archive.nameTemplate = .ok archiveName)
    (hchecksum : NameTemplate.assign checksumTarget r.checksumTemplate = .ok checksumName)
    (date : Option String) : ∃ i before, ofRelease r date = .ok i ∧
      commandsOn adjustedNames adjusters i.script =
        before ++ adjustingCommands r.archive.format ∧
      (IsDate date → before = []) ∧
      (∀ f ∈ adjusters, ∀ cases, casesOf f i.script = some cases →
        literalCasesOf f i.script = some cases) ∧
      (∀ (outputs : String → String) (env : Environment),
        runLines i.script outputs env (adjustingCommands r.archive.format) =
          some (adjusted r.archive (outputs "uname_os") (outputs "uname_arch") env)) ∧
      ∀ (p : Project) (given : Option Repo), ofProject p given = .ok r → ∀ os,
        r.archive.formatOverrides.find? os =
          ((p.archive.formatOverrides.filter (·.os = os)).getLast?).map (·.format) := by
  obtain ⟨primary, rest, -, hi, hinert⟩ := exists_ofRelease hr harchive hchecksum date
  obtain ⟨before, hcommands, hbefore⟩ := exists_commandsOn_script hinert
  exact ⟨_, before, hi, hcommands, hbefore, fun f _ cases hcases => literalCasesOf_of_casesOf hcases,
    runLines_adjustingCommands hinert rfl rfl rfl,
    fun p given h os => find?_formatOverrides_ofProject h os⟩

/-- A system with a format of its own, and one that goes by another name. -/
theorem exists_adjusted_arm : ∃ i onWindows onDarwin, ofRelease armRelease none = .ok i ∧
    commandsOn adjustedNames adjusters i.script = adjustingCommands "tar.gz" ∧
    runLines i.script (fun f => if f = "uname_os" then "windows" else "386") (fun _ => "")
      (adjustingCommands "tar.gz") = some onWindows ∧
    runLines i.script (fun f => if f = "uname_os" then "darwin" else "amd64") (fun _ => "")
      (adjustingCommands "tar.gz") = some onDarwin ∧
    adjustedNames.map onWindows = ["zip", "windows", "386"] ∧
    adjustedNames.map onDarwin = ["tar.gz", "macos", "x86_64"] := by
  obtain ⟨i, before, hi, hcommands, hbefore, -, hrun, -⟩ :=
    exists_adjusted validate_armRelease assign_armArchive assign_armChecksum none
  obtain rfl := hbefore (by decide)
  exact ⟨i, _, _, hi, hcommands, hrun _ _, hrun _ _, by decide, by decide⟩

end ReleaseInstaller.Installer
