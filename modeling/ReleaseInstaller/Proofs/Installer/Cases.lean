import ReleaseInstaller.Proofs.Installer.Lines

/-! The `case` statements of the functions whose bodies depend on the release, read from the script. -/
namespace ReleaseInstaller.Installer
open Text Script Shell NameTemplate Release

/-- No statement for no arms. -/
def optionalStatement (subject : String) (arms : List CaseArm) : List CaseStatement :=
  if arms.isEmpty then [] else [⟨subject, arms⟩]

def platformArms (found : String) (platforms : List String) : List CaseArm :=
  platforms.map fun p => ⟨p, "found", found⟩

def platformStatements (i : Installer) : List CaseStatement :=
  ⟨"platform", platformArms "0" i.supported⟩ ::
    optionalStatement "platform" (platformArms "1" i.excluded)

def assignmentArms (name : String) (as : List Arm) : List CaseArm :=
  as.map fun a => ⟨a.pattern, name, a.value⟩

/-- The functions whose bodies depend on the release, each with its statements. -/
def statements (i : Installer) : List (String × List CaseStatement) :=
  [("is_supported_platform", platformStatements i),
   ("adjust_format", optionalStatement "OS" (assignmentArms "FORMAT" i.formatOverrides)),
   ("adjust_os", optionalStatement "OS" (assignmentArms "OS" i.replacements)),
   ("adjust_arch", optionalStatement "ARCH" (assignmentArms "ARCH" i.replacements))]

/-- Some arm begins with the word that closes its statement. -/
def EndsEarly (arms : List CaseArm) : Prop := ∃ a ∈ arms, a.pattern = caseEnd

instance (arms : List CaseArm) : Decidable (EndsEarly arms) :=
  inferInstanceAs (Decidable (∃ a ∈ arms, a.pattern = caseEnd))

variable {i : Installer}

section Reading
variable {subject word : String} {arms : List CaseArm} {ls : List Line}

theorem text_platformArm (found p : String) :
    (platformArm found p).text = CaseArm.line ⟨p, "found", found⟩ := by
  simp [platformArm, Line.text, Piece.text, CaseArm.line]

theorem text_assignmentArm (name : String) (a : Arm) :
    (assignmentArm name a).text = CaseArm.line ⟨a.pattern, name, a.value⟩ := by
  simp [assignmentArm, Line.text, Piece.text, CaseArm.line]

theorem map_text_platformArms (found : String) (ps : List String) :
    (ps.map (platformArm found)).map Line.text = (platformArms found ps).map CaseArm.line := by
  simp only [platformArms, List.map_map]
  exact List.map_congr_left fun p _ => text_platformArm found p

theorem map_text_assignmentArms (name : String) (as : List Arm) :
    (as.map (assignmentArm name)).map Line.text = (assignmentArms name as).map CaseArm.line := by
  simp only [assignmentArms, List.map_map]
  exact List.map_congr_left fun a _ => text_assignmentArm name a

theorem map_text_caseOf (word : String) (ls : List Line) : (caseOf word ls).map Line.text =
    ("  case " ++ word ++ " in").toList :: (ls.map Line.text ++ ["  esac".toList]) := by
  simp only [caseOf, List.map_append, List.map_cons, List.map_nil, text_fixed, List.cons_append]

theorem readCases_caseOf (hopen : caseOpening? (trimStart ("  case " ++ word ++ " in").toList) =
      some ⟨subject, []⟩) (htext : ls.map Line.text = arms.map CaseArm.line)
    (harms : ∀ a ∈ arms, a.IsLiteral) (hend : ¬ EndsEarly arms) (rest : List (List Char)) :
    readCases none ((caseOf word ls).map Line.text ++ rest) =
      (readCases none rest).map (⟨subject, arms⟩ :: ·) := by
  have hpatterns : ∀ a ∈ arms, a.pattern ≠ caseEnd := fun a ha he => hend ⟨a, ha, he⟩
  rw [map_text_caseOf, htext, List.cons_append, readCases, hopen, List.append_assoc,
    readCases_arms harms hpatterns, List.singleton_append, readCases_end]
  rfl

theorem optionalCaseOf_eq (htext : ls.map Line.text = arms.map CaseArm.line) :
    optionalCaseOf word ls = if arms = [] then [] else caseOf word ls := by
  have hnil : ls.isEmpty = true ↔ arms = [] := by
    rw [List.isEmpty_iff, ← List.map_eq_nil_iff, htext, List.map_eq_nil_iff]
  simp only [optionalCaseOf, hnil]

theorem readCases_optionalCaseOf
    (hopen : caseOpening? (trimStart ("  case " ++ word ++ " in").toList) = some ⟨subject, []⟩)
    (htext : ls.map Line.text = arms.map CaseArm.line) (harms : ∀ a ∈ arms, a.IsLiteral)
    (hend : ¬ EndsEarly arms) (rest : List (List Char)) :
    readCases none ((optionalCaseOf word ls).map Line.text ++ rest) =
      (readCases none rest).map (optionalStatement subject arms ++ ·) := by
  rw [optionalCaseOf_eq htext]
  cases arms with
  | nil => simp [optionalStatement]
  | cons a arms =>
    rw [if_neg (List.cons_ne_nil a arms), readCases_caseOf hopen htext harms hend]
    rfl

/-- A statement that ends early cannot be read. -/
theorem readCases_optionalCaseOf_eq_none
    (hopen : caseOpening? (trimStart ("  case " ++ word ++ " in").toList) = some ⟨subject, []⟩)
    (htext : ls.map Line.text = arms.map CaseArm.line) (harms : ∀ a ∈ arms, a.IsLiteral)
    (hend : EndsEarly arms) (rest : List (List Char)) :
    readCases none ((optionalCaseOf word ls).map Line.text ++ rest) = none := by
  have hne : arms ≠ [] := by
    obtain ⟨a, ha, -⟩ := hend
    exact List.ne_nil_of_mem ha
  rw [optionalCaseOf_eq htext, if_neg hne, map_text_caseOf, htext, List.cons_append, readCases, hopen,
    List.append_assoc, readCases_eq_none harms hend]

end Reading

/-- The lines of a function between the one that opens it and the one that closes it. -/
def platformBody (i : Installer) : List Line :=
  fixed ["  platform=$1", "  found=1"] ++
    caseOf "\"$platform\"" (i.supported.map (platformArm "0")) ++
    optionalCaseOf "\"$platform\"" (i.excluded.map (platformArm "1")) ++
    fixed ["  return $found"]

def adjustmentBody (remark word name : String) (as : List Arm) : List Line :=
  fixed [remark] ++ optionalCaseOf word (as.map (assignmentArm name)) ++ fixed ["  true"]

/-- A function as the lines of a script. -/
def functionOf (name : String) (body : List Line) : List Line :=
  [.fixed (name ++ "() \x7b")] :: (body ++ [[.fixed "\x7d"]])

theorem platformCheck_eq (i : Installer) :
    platformCheck i = functionOf "is_supported_platform" (platformBody i) := by
  simp [platformCheck, functionOf, platformBody, fixed]

theorem adjustment_eq (function remark word name : String) (as : List Arm) :
    adjustment [function ++ "() \x7b", remark] word name as =
      functionOf function (adjustmentBody remark word name as) := by
  simp [adjustment, functionOf, adjustmentBody, fixed]

/-- A line within a function. -/
def IsInner (l : Line) : Prop := l.text.head? = some ' '

theorem isInner_fixed {s : String} (h : s.toList.head? = some ' ') : IsInner [.fixed s] := by
  rw [IsInner, text_fixed]
  exact h

theorem head?_line (a : CaseArm) : a.line.head? = some ' ' := rfl

theorem platformBody_isInner (i : Installer) : ∀ l ∈ platformBody i, IsInner l := by
  have hopen : IsInner [.fixed ("  case " ++ "\"$platform\"" ++ " in")] := isInner_fixed rfl
  have hend : IsInner [.fixed "  esac"] := isInner_fixed rfl
  have harms : ∀ (found : String) (ps : List String), ∀ l ∈ ps.map (platformArm found), IsInner l := by
    intro found ps
    rw [List.forall_mem_map]
    intro p _
    rw [IsInner, text_platformArm, head?_line]
  simp only [platformBody, List.forall_mem_append, fixed, List.map_cons, List.map_nil,
    List.forall_mem_cons]
  exact ⟨⟨⟨⟨isInner_fixed rfl, isInner_fixed rfl, by simp⟩, caseOf_forall hopen (harms _ _) hend⟩,
    optionalCaseOf_forall hopen (harms _ _) hend⟩, isInner_fixed rfl, by simp⟩

theorem adjustmentBody_isInner {remark word name : String} (as : List Arm)
    (hremark : remark.toList.head? = some ' ') :
    ∀ l ∈ adjustmentBody remark word name as, IsInner l := by
  have hopen : IsInner [.fixed ("  case " ++ word ++ " in")] := by
    apply isInner_fixed
    rw [String.toList_append, String.toList_append]
    rfl
  have hend : IsInner [.fixed "  esac"] := isInner_fixed rfl
  have harms : ∀ l ∈ as.map (assignmentArm name), IsInner l := by
    rw [List.forall_mem_map]
    intro a _
    rw [IsInner, text_assignmentArm, head?_line]
  simp only [adjustmentBody, List.forall_mem_append, fixed, List.map_cons, List.map_nil,
    List.forall_mem_cons]
  exact ⟨⟨⟨isInner_fixed hremark, by simp⟩, optionalCaseOf_forall hopen harms hend⟩,
    isInner_fixed rfl, by simp⟩

section Body
variable {name : String} {body : List Line}

theorem getLast?_opening (name : String) : (opening name).getLast? = some '\x7b' := by
  simp [opening]

theorem functionOf_ne_opening {other : String} (hbody : ∀ l ∈ body, IsInner l) (hne : other ≠ name)
    (hhead : (opening name).head? ≠ some ' ') : ∀ l ∈ functionOf other body, l.text ≠ opening name := by
  simp only [functionOf, List.forall_mem_cons, List.forall_mem_append]
  refine ⟨?_, ?_, ?_, by simp⟩
  · rw [text_fixed]
    intro h
    exact hne (String.toList_inj.mp (by simpa [opening] using h))
  · intro l hl h
    exact hhead (h ▸ hbody l hl)
  · rw [text_fixed]
    intro h
    have hlast := getLast?_opening name
    rw [← h] at hlast
    exact absurd hlast (by decide)

/-- The last function of its name in a script is the one that counts. -/
theorem body?_script (h : i.IsInert) {before after : List Line}
    (heq : i.undatedLines = before ++ (functionOf name body ++ after))
    (hbody : ∀ l ∈ body, IsInner l) (hhead : (opening name).head? ≠ some ' ')
    (hafter : ∀ l ∈ after, l.text ≠ opening name) :
    body? name (Text.lines i.script.toList) = some (body.map Line.text) := by
  obtain ⟨earlier, hlines⟩ := exists_lines_script h
  have hinner : ∀ l ∈ body.map Line.text, l.head? = some ' ' := List.forall_mem_map.mpr hbody
  have hlater : ∀ l ∈ after.map Line.text, l ≠ opening name := List.forall_mem_map.mpr hafter
  have hclosing : closing ∉ body.map Line.text := fun hm => absurd (hinner _ hm) (by decide)
  have hlast : opening name ∉ body.map Line.text ++ closing :: after.map Line.text := by
    rw [List.mem_append, List.mem_cons, not_or, not_or]
    refine ⟨fun hm => hhead (hinner _ hm), ?_, fun hm => hlater _ hm rfl⟩
    intro h
    have hend := getLast?_opening name
    rw [h] at hend
    exact absurd hend (by decide)
  have hfunction : (functionOf name body).map Line.text ++ after.map Line.text =
      opening name :: (body.map Line.text ++ closing :: after.map Line.text) := by
    simp only [functionOf, List.map_cons, List.map_append, text_fixed, List.map_nil,
      List.cons_append, List.append_assoc, List.nil_append]
    rfl
  rw [hlines, heq, List.map_append, List.map_append, ← List.append_assoc, hfunction]
  exact body?_append hclosing hlast _

end Body

/-- What comes after the functions that depend on the release. -/
def ending (i : Installer) : List Line := toolbox ++ settings i ++ steps i

theorem ending_isQuiet (h : i.IsInert) : ∀ l ∈ ending i, IsQuiet l := by
  simp only [ending, List.forall_mem_append]
  exact ⟨⟨toolbox_isQuiet, fun l hl => (settings_isTame h l hl).isQuiet⟩, steps_isQuiet h⟩

def formatBody (i : Installer) : List Line :=
  adjustmentBody "  # change format (tar.gz or zip) based on OS" "$\x7bOS\x7d" "FORMAT" i.formatOverrides

def systemBody (i : Installer) : List Line :=
  adjustmentBody "  # adjust archive name based on OS" "$\x7bOS\x7d" "OS" i.replacements

def archBody (i : Installer) : List Line :=
  adjustmentBody "  # adjust archive name based on ARCH" "$\x7bARCH\x7d" "ARCH" i.replacements

theorem undatedLines_eq (i : Installer) : ∃ before, i.undatedLines =
    before ++ (functionOf "is_supported_platform" (platformBody i) ++ (release ++
      (functionOf "adjust_format" (formatBody i) ++ (functionOf "adjust_os" (systemBody i) ++
        (functionOf "adjust_arch" (archBody i) ++ ending i))))) := by
  have hadjustments : adjustments i = functionOf "adjust_format" (formatBody i) ++
      functionOf "adjust_os" (systemBody i) ++ functionOf "adjust_arch" (archBody i) := by
    simp only [formatBody, systemBody, archBody, ← adjustment_eq]
    rfl
  refine ⟨fixed ["#", ""] ++ usage i ++ arguments ++ execution i, ?_⟩
  simp only [undatedLines, platformCheck_eq, hadjustments, ending, List.append_assoc]

theorem body?_tailored (h : i.IsInert) :
    body? "is_supported_platform" (Text.lines i.script.toList) =
      some ((platformBody i).map Line.text) ∧
    body? "adjust_format" (Text.lines i.script.toList) = some ((formatBody i).map Line.text) ∧
    body? "adjust_os" (Text.lines i.script.toList) = some ((systemBody i).map Line.text) ∧
    body? "adjust_arch" (Text.lines i.script.toList) = some ((archBody i).map Line.text) := by
  obtain ⟨before, heq⟩ := undatedLines_eq i
  have hplatform := platformBody_isInner i
  have hformat : ∀ l ∈ formatBody i, IsInner l := adjustmentBody_isInner _ rfl
  have hsystem : ∀ l ∈ systemBody i, IsInner l := adjustmentBody_isInner _ rfl
  have harch : ∀ l ∈ archBody i, IsInner l := adjustmentBody_isInner _ rfl
  have hrelease : ∀ name ∈ tailored, ∀ l ∈ release, l.text ≠ opening name :=
    fun name hname l hl => (release_isQuiet l hl).ne_opening name hname
  have hending : ∀ name ∈ tailored, ∀ l ∈ ending i, l.text ≠ opening name :=
    fun name hname l hl => (ending_isQuiet h l hl).ne_opening name hname
  have hhead : ∀ name ∈ tailored, (opening name).head? ≠ some ' ' := by decide
  -- The last definition of a function counts, so none of what follows may open the function again.
  refine ⟨?_, ?_, ?_, ?_⟩
  · refine body?_script h heq hplatform (hhead _ (by decide)) ?_
    simp only [List.forall_mem_append]
    exact ⟨hrelease _ (by decide), functionOf_ne_opening hformat (by decide) (by decide),
      functionOf_ne_opening hsystem (by decide) (by decide),
      functionOf_ne_opening harch (by decide) (by decide), hending _ (by decide)⟩
  · rw [← List.append_assoc, ← List.append_assoc] at heq
    refine body?_script h heq hformat (hhead _ (by decide)) ?_
    simp only [List.forall_mem_append]
    exact ⟨functionOf_ne_opening hsystem (by decide) (by decide),
      functionOf_ne_opening harch (by decide) (by decide), hending _ (by decide)⟩
  · rw [← List.append_assoc, ← List.append_assoc, ← List.append_assoc] at heq
    refine body?_script h heq hsystem (hhead _ (by decide)) ?_
    simp only [List.forall_mem_append]
    exact ⟨functionOf_ne_opening harch (by decide) (by decide), hending _ (by decide)⟩
  · rw [← List.append_assoc, ← List.append_assoc, ← List.append_assoc, ← List.append_assoc] at heq
    exact body?_script h heq harch (hhead _ (by decide)) (hending _ (by decide))

section Statements
variable {subject word name remark : String} {as : List Arm}

theorem isLiteral_platformArms {found : String} {ps : List String} (hfound : isWord found = true)
    (h : ∀ p ∈ ps, IsPlatformName p) : ∀ a ∈ platformArms found ps, a.IsLiteral := by
  intro a ha
  obtain ⟨p, hp, rfl⟩ := List.mem_map.mp ha
  have hname : isVariableName "found".toList = true := by decide
  exact ⟨(h p hp).isWord, hname, hfound⟩

/-- The name of a platform holds a slash, so it closes nothing. -/
theorem not_endsEarly_platformArms {found : String} {ps : List String}
    (h : ∀ p ∈ ps, IsPlatformName p) : ¬ EndsEarly (platformArms found ps) := by
  rintro ⟨a, ha, he⟩
  obtain ⟨p, hp, rfl⟩ := List.mem_map.mp ha
  obtain ⟨os, arch, rfl, -, -⟩ := h p hp
  have hslash : '/' ∈ (os ++ "/" ++ arch).toList := by simp
  rw [show os ++ "/" ++ arch = caseEnd from he] at hslash
  exact absurd hslash (by decide)

theorem isLiteral_assignmentArms (hname : isVariableName name.toList = true)
    (h : ∀ a ∈ as, isWord a.pattern = true ∧ isWord a.value = true) :
    ∀ a ∈ assignmentArms name as, a.IsLiteral := by
  intro a ha
  obtain ⟨b, hb, rfl⟩ := List.mem_map.mp ha
  exact ⟨(h b hb).1, hname, (h b hb).2⟩

theorem IsInert.isLiteral_supported (h : i.IsInert) :
    ∀ a ∈ platformArms "0" i.supported, a.IsLiteral :=
  isLiteral_platformArms (by decide) h.supported

theorem IsInert.isLiteral_excluded (h : i.IsInert) :
    ∀ a ∈ platformArms "1" i.excluded, a.IsLiteral :=
  isLiteral_platformArms (by decide) h.excluded

theorem IsInert.isLiteral_formatOverrides (h : i.IsInert) :
    ∀ a ∈ assignmentArms "FORMAT" i.formatOverrides, a.IsLiteral :=
  isLiteral_assignmentArms (by decide) h.formatOverrides

theorem IsInert.isLiteral_replacements (h : i.IsInert) :
    ∀ name ∈ ["OS", "ARCH"], ∀ a ∈ assignmentArms name i.replacements, a.IsLiteral := by
  have hname : ∀ name ∈ ["OS", "ARCH"], isVariableName name.toList = true := by decide
  exact fun name hm => isLiteral_assignmentArms (hname name hm) h.replacements

theorem readCases_platformBody (h : i.IsInert) :
    readCases none ((platformBody i).map Line.text) = some (platformStatements i) := by
  have hfirst : (fixed ["  platform=$1", "  found=1"]).map Line.text =
      ["  platform=$1".toList, "  found=1".toList] := by
    simp [fixed, text_fixed]
  have hlast : (fixed ["  return $found"]).map Line.text = ["  return $found".toList] := by
    simp [fixed, text_fixed]
  have hreturn : readCases none ["  return $found".toList] = some [] := by decide
  have hopen : caseOpening? (trimStart ("  case " ++ "\"$platform\"" ++ " in").toList) =
      some ⟨"platform", []⟩ := by decide
  simp only [platformBody, List.map_append, hfirst, hlast, List.append_assoc, List.cons_append,
    List.nil_append]
  rw [readCases_skip (by decide), readCases_skip (by decide),
    readCases_caseOf hopen (map_text_platformArms "0" _) h.isLiteral_supported
      (not_endsEarly_platformArms h.supported),
    readCases_optionalCaseOf hopen (map_text_platformArms "1" _) h.isLiteral_excluded
      (not_endsEarly_platformArms h.excluded), hreturn]
  simp [platformStatements]

theorem readCases_adjustmentBody
    (hopen : caseOpening? (trimStart ("  case " ++ word ++ " in").toList) = some ⟨subject, []⟩)
    (hremark : caseOpening? (trimStart remark.toList) = none)
    (harms : ∀ a ∈ assignmentArms name as, a.IsLiteral) :
    readCases none ((adjustmentBody remark word name as).map Line.text) =
      if EndsEarly (assignmentArms name as) then none
      else some (optionalStatement subject (assignmentArms name as)) := by
  have hfirst : (fixed [remark]).map Line.text = [remark.toList] := by simp [fixed, text_fixed]
  have hlast : (fixed ["  true"]).map Line.text = ["  true".toList] := by simp [fixed, text_fixed]
  have htrue : readCases none ["  true".toList] = some [] := by decide
  simp only [adjustmentBody, List.map_append, hfirst, hlast, List.append_assoc, List.cons_append,
    List.nil_append]
  rw [readCases_skip hremark]
  split
  · rename_i hend
    exact readCases_optionalCaseOf_eq_none hopen (map_text_assignmentArms name as) harms hend _
  · rename_i hend
    rw [readCases_optionalCaseOf hopen (map_text_assignmentArms name as) harms hend, htrue]
    simp

theorem exists_endsEarly_optionalStatement {arms : List CaseArm} :
    (∃ s ∈ optionalStatement subject arms, EndsEarly s.arms) ↔ EndsEarly arms := by
  cases arms with
  | nil => simp [optionalStatement, EndsEarly]
  | cons a arms => simp [optionalStatement]

theorem endsEarly_assignmentArms : EndsEarly (assignmentArms name as) ↔
    ∃ a ∈ as, a.pattern = caseEnd := by
  simp [EndsEarly, assignmentArms]

theorem not_endsEarly_platformStatements (h : i.IsInert) :
    ¬ ∃ s ∈ platformStatements i, EndsEarly s.arms := by
  simp only [platformStatements, List.mem_cons, exists_eq_or_imp, exists_endsEarly_optionalStatement]
  rintro (hend | hend)
  · exact not_endsEarly_platformArms h.supported hend
  · exact not_endsEarly_platformArms h.excluded hend

end Statements

/-- The statements of each function can be read, unless one of them ends early. -/
theorem casesOf_statements (h : i.IsInert) : ∀ f ∈ i.statements, casesOf f.1 i.script =
    if ∃ s ∈ f.2, EndsEarly s.arms then none else some f.2 := by
  obtain ⟨hplatform, hformat, hsystem, harch⟩ := body?_tailored h
  simp only [statements, List.forall_mem_cons, exists_endsEarly_optionalStatement, casesOf, hplatform,
    hformat, hsystem, harch, Option.bind_some]
  refine ⟨?_, ?_, ?_, ?_, by simp⟩
  · rw [if_neg (not_endsEarly_platformStatements h)]
    exact readCases_platformBody h
  · exact readCases_adjustmentBody (by decide) (by decide) h.isLiteral_formatOverrides
  · exact readCases_adjustmentBody (by decide) (by decide) (h.isLiteral_replacements "OS" (by decide))
  · exact readCases_adjustmentBody (by decide) (by decide)
      (h.isLiteral_replacements "ARCH" (by decide))

theorem isWord_of_mem_statements (h : i.IsInert) :
    ∀ f ∈ i.statements, ∀ s ∈ f.2, ∀ a ∈ s.arms, isWord a.pattern = true := by
  have hoptional : ∀ (subject : String) (arms : List CaseArm), (∀ a ∈ arms, a.IsLiteral) →
      ∀ s ∈ optionalStatement subject arms, ∀ a ∈ s.arms, isWord a.pattern = true := by
    intro subject arms harms s hs
    unfold optionalStatement at hs
    split at hs
    · contradiction
    · obtain rfl := List.mem_singleton.mp hs
      exact fun a ha => (harms a ha).pattern
  simp only [statements, List.forall_mem_cons, platformStatements]
  exact ⟨⟨fun a ha => (h.isLiteral_supported a ha).pattern, hoptional _ _ h.isLiteral_excluded⟩,
    hoptional _ _ h.isLiteral_formatOverrides,
    hoptional _ _ (h.isLiteral_replacements "OS" (by decide)),
    hoptional _ _ (h.isLiteral_replacements "ARCH" (by decide)), by simp⟩

/-- Only an override or a replacement can end a statement early. -/
theorem exists_endsEarly_iff (h : i.IsInert) : (∃ f ∈ i.statements, ∃ s ∈ f.2, EndsEarly s.arms) ↔
    (∃ a ∈ i.formatOverrides, a.pattern = caseEnd) ∨ ∃ a ∈ i.replacements, a.pattern = caseEnd := by
  simp only [statements, List.mem_cons, exists_eq_or_imp, exists_endsEarly_optionalStatement,
    not_endsEarly_platformStatements h, endsEarly_assignmentArms, List.not_mem_nil, or_false,
    exists_eq_left, false_or, or_self]

theorem exists_pattern_arms (d : Dictionary) (p : String) :
    (∃ a ∈ arms d, a.pattern = p) ↔ p ∈ d.keys := by
  simp [arms, Dictionary.keys]

/-- The arms that a valid release puts into its script have words as their patterns. A word that
closes the statement is let through as well: the statements of a function can be read from the script
exactly if no pattern is that word. -/
theorem exists_casesOf {r : Release} {archiveName checksumName : Assignment}
    (hr : r.validate = .ok ())
    (harchive : NameTemplate.assign archiveTarget r.archive.nameTemplate = .ok archiveName)
    (hchecksum : NameTemplate.assign checksumTarget r.checksumTemplate = .ok checksumName)
    (date : Option String) : ∃ i, ofRelease r date = .ok i ∧
      (∀ f ∈ i.statements, ∀ s ∈ f.2, ∀ a ∈ s.arms, isWord a.pattern = true) ∧
      (∀ f ∈ i.statements, casesOf f.1 i.script =
        if ∃ s ∈ f.2, EndsEarly s.arms then none else some f.2) ∧
      ((∃ f ∈ i.statements, ∃ s ∈ f.2, EndsEarly s.arms) ↔
        caseEnd ∈ r.archive.formatOverrides.keys ∨ caseEnd ∈ r.archive.replacements.keys) := by
  obtain ⟨primary, rest, -, hi, hinert⟩ := exists_ofRelease hr harchive hchecksum date
  refine ⟨_, hi, isWord_of_mem_statements hinert, casesOf_statements hinert, ?_⟩
  rw [exists_endsEarly_iff hinert]
  exact or_congr (exists_pattern_arms _ _) (exists_pattern_arms _ _)

theorem exists_casesOf_arm : ∃ i, ofRelease armRelease none = .ok i ∧
    ∀ f ∈ i.statements, casesOf f.1 i.script = some f.2 := by
  obtain ⟨i, hi, -, hcases, hend⟩ :=
    exists_casesOf validate_armRelease assign_armArchive assign_armChecksum none
  have hkeys : ¬ (caseEnd ∈ armRelease.archive.formatOverrides.keys ∨
      caseEnd ∈ armRelease.archive.replacements.keys) := by decide +kernel
  refine ⟨i, hi, fun f hf => ?_⟩
  rw [hcases f hf, if_neg]
  exact fun hs => hkeys (hend.mp ⟨f, hf, hs⟩)

/-- The release with a format for an operating system whose name closes a statement. -/
def closingRelease : Release :=
  { armRelease with archive :=
    { armRelease.archive with formatOverrides := .ofList [(caseEnd, "zip")] } }

theorem validate_closingRelease : closingRelease.validate = .ok () := by
  rw [← toOption_eq_some_iff]
  decide

/-- The release is valid, but the first arm of its formats closes the statement. -/
theorem closing_word_is_accepted : closingRelease.validate = .ok () ∧
    ∃ i, ofRelease closingRelease none = .ok i ∧ i.formatOverrides = [⟨"esac", "zip"⟩] ∧
      casesOf "adjust_format" i.script = none := by
  obtain ⟨primary, rest, -, hi, hinert⟩ :=
    exists_ofRelease validate_closingRelease assign_armArchive assign_armChecksum none
  have hcases := casesOf_statements hinert _ (List.mem_cons_of_mem _ List.mem_cons_self)
  have hformats : arms closingRelease.archive.formatOverrides = [⟨"esac", "zip"⟩] := by
    decide +kernel
  refine ⟨validate_closingRelease, _, hi, hformats, ?_⟩
  rw [hcases, if_pos]
  rw [exists_endsEarly_optionalStatement, endsEarly_assignmentArms]
  exact ⟨⟨"esac", "zip"⟩, by simp [ofParts, hformats], rfl⟩

end ReleaseInstaller.Installer
