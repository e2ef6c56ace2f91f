import ReleaseInstaller.Proofs.Installer.Lines

/-! What a release puts into its script. The text around the values is always the same, and the values
are words: none of them adds a line or anything that a shell would act on. -/
namespace ReleaseInstaller.Installer
open Text Script Shell NameTemplate Release

/-- The values in a line, in their order. -/
def Line.values (l : Line) : List String :=
  l.filterMap fun
    | .fixed _ => none
    | .value v => some v

/-- A line whose values are taken out. -/
def Line.blanked (l : Line) : Line :=
  l.map fun
    | .fixed s => .fixed s
    | .value _ => .value ""

def Arm.values (a : Arm) : List String := [a.pattern, a.value]

/-- The values after the line with the date, in their order. -/
def insertions (i : Installer) : List String :=
  [i.owner, i.repo, i.repoUrl] ++ i.binaries ++ i.supported ++ i.excluded ++
    i.formatOverrides.flatMap Arm.values ++ i.replacements.flatMap Arm.values ++
    i.replacements.flatMap Arm.values ++
    [i.projectName, i.owner, i.repo, i.binary, i.format, i.archiveName, i.checksumName]

/-- What the text around the values depends on. -/
structure Shape where
  wrapInDirectory : Bool
  /-- Whether there is a date in the heading. -/
  dated : Bool
  binaries : Nat
  supported : Nat
  excluded : Nat
  formatOverrides : Nat
  replacements : Nat
  deriving DecidableEq, Repr

def shape (i : Installer) : Shape where
  wrapInDirectory := i.wrapInDirectory
  dated := !(dated i.generatedAt).isEmpty
  binaries := i.binaries.length
  supported := i.supported.length
  excluded := i.excluded.length
  formatOverrides := i.formatOverrides.length
  replacements := i.replacements.length

/-- The lines of a `case` statement that is left out without arms. -/
def optionalCaseCount (arms : Nat) : Nat := if arms = 0 then 0 else arms + 2

def Shape.lineCount (s : Shape) : Nat :=
  375 + s.wrapInDirectory.toNat + s.supported + optionalCaseCount s.excluded +
    optionalCaseCount s.formatOverrides + 2 * optionalCaseCount s.replacements

theorem blanked_append (l l' : Line) : Line.blanked (l ++ l') = l.blanked ++ l'.blanked :=
  List.map_append

section Parts
variable {subject : String} {arms : List Line}

theorem length_fixed (ls : List String) : (fixed ls).length = ls.length := List.length_map ..

theorem length_optionalCaseOf :
    (optionalCaseOf subject arms).length = optionalCaseCount arms.length := by
  cases arms <;> simp [optionalCaseOf, optionalCaseCount, caseOf]

theorem flatMap_values_fixed (ls : List String) : (fixed ls).flatMap Line.values = [] := by
  simp [fixed, Line.values]

theorem flatMap_values_caseOf :
    (caseOf subject arms).flatMap Line.values = arms.flatMap Line.values := by
  simp [caseOf, Line.values]

theorem flatMap_values_optionalCaseOf :
    (optionalCaseOf subject arms).flatMap Line.values = arms.flatMap Line.values := by
  cases arms with
  | nil => rfl
  | cons l arms => exact flatMap_values_caseOf

theorem map_blanked_fixed (ls : List String) : (fixed ls).map Line.blanked = fixed ls := by
  simp [fixed, Line.blanked]

theorem map_blanked_caseOf :
    (caseOf subject arms).map Line.blanked = caseOf subject (arms.map Line.blanked) := by
  simp [caseOf, Line.blanked]

theorem map_blanked_optionalCaseOf : (optionalCaseOf subject arms).map Line.blanked =
    optionalCaseOf subject (arms.map Line.blanked) := by
  cases arms with
  | nil => rfl
  | cons l arms => exact map_blanked_caseOf

/-- Lines that differ only in their values are the same without them. -/
theorem map_blanked_map {α : Type} {f : α → Line} {blank : Line} (h : ∀ x, (f x).blanked = blank)
    (xs : List α) : (xs.map f).map Line.blanked = List.replicate xs.length blank := by
  rw [List.map_map, ← List.map_const']
  exact List.map_congr_left fun x _ => h x

end Parts

variable {i : Installer}

theorem length_lines (i : Installer) : i.lines.length = i.shape.lineCount := by
  have hsource : (sourceDirectory i.wrapInDirectory).length = 1 + i.wrapInDirectory.toNat := by
    cases i.wrapInDirectory <;> rfl
  have harguments : arguments.length = 16 := rfl
  have hrelease : release.length = 24 := rfl
  have htoolbox : toolbox.length = 229 := rfl
  simp only [lines, heading, usage, execution, download, extraction, installation, platformCheck,
    caseOf, adjustments, adjustment, settings, steps, List.length_append, length_fixed,
    length_optionalCaseOf, List.length_map, List.length_cons, List.length_nil, harguments, hrelease,
    htoolbox, hsource, Shape.lineCount, shape]
  omega

theorem values_binaryLoop (binaries : List String) : (binaryLoop binaries).values = binaries := by
  simp [binaryLoop, Line.values, List.filterMap_flatMap]

theorem flatMap_values_toolbox : toolbox.flatMap Line.values = [] := by
  simp only [toolbox, List.flatMap_append, flatMap_values_fixed, toolboxHeading, logging, detection,
    knownNames, unpacking, downloading, releaseLookup, hashing, toolboxEnd, List.append_nil]

/-- Every value that the script has after the line with the date. -/
theorem flatMap_values_undatedLines (i : Installer) :
    i.undatedLines.flatMap Line.values = i.insertions := by
  have hplatform : ∀ (found : String) (ps : List String),
      (ps.map (platformArm found)).flatMap Line.values = ps := by
    intro found ps
    simp [List.flatMap_map, platformArm, Line.values]
  have hassignment : ∀ (name : String) (as : List Arm),
      (as.map (assignmentArm name)).flatMap Line.values = as.flatMap Arm.values := by
    intro name as
    rw [List.flatMap_map]
    rfl
  have hsource : (sourceDirectory i.wrapInDirectory).flatMap Line.values = [] := by
    cases i.wrapInDirectory <;> rfl
  have harguments : arguments.flatMap Line.values = [] := flatMap_values_fixed _
  have hrelease : release.flatMap Line.values = [] := flatMap_values_fixed _
  have htoolbox := flatMap_values_toolbox
  simp only [undatedLines, usage, execution, platformCheck, adjustments, adjustment, settings, steps,
    List.flatMap_append, flatMap_values_fixed, flatMap_values_caseOf, flatMap_values_optionalCaseOf,
    hplatform, hassignment, hsource, harguments, hrelease, htoolbox, List.flatMap_cons,
    List.flatMap_nil, values_binaryLoop, List.nil_append, List.append_nil]
  simp [Line.values, insertions]

theorem blanked_dated {date date' : Option String}
    (h : (dated date).isEmpty = (dated date').isEmpty) :
    (dated date).blanked = (dated date').blanked := by
  have hdated : ∀ date, dated date = [] ∨ ∃ d, dated date = [.fixed " on ", .value d] := by
    intro date
    unfold dated
    split
    · split
      · exact .inl rfl
      · exact .inr ⟨_, rfl⟩
    · exact .inl rfl
  rcases hdated date with hd | ⟨d, hd⟩ <;> rcases hdated date' with hd' | ⟨d', hd'⟩
  · rw [hd, hd']
  · rw [hd, hd'] at h
    contradiction
  · rw [hd, hd'] at h
    contradiction
  · rw [hd, hd']
    rfl

theorem blanked_quotedBinaries (binaries : List String) :
    Line.blanked (binaries.flatMap fun b => [.fixed "\"", .value b, .fixed "\" "]) =
      (List.replicate binaries.length [.fixed "\"", .value "", .fixed "\" "]).flatten := by
  induction binaries with
  | nil => rfl
  | cons b binaries ih =>
    rw [List.flatMap_cons, blanked_append, ih]
    rfl

theorem blanked_binaryLoop {binaries binaries' : List String}
    (h : binaries.length = binaries'.length) :
    (binaryLoop binaries).blanked = (binaryLoop binaries').blanked := by
  rw [binaryLoop, binaryLoop, blanked_append, blanked_append, blanked_append, blanked_append,
    blanked_quotedBinaries, blanked_quotedBinaries, h]

/-- Without its values, a script depends on its shape alone. -/
theorem map_blanked_lines {j : Installer} (h : i.shape = j.shape) :
    i.lines.map Line.blanked = j.lines.map Line.blanked := by
  obtain ⟨hwrap, hdated, hbinaries, hsupported, hexcluded, hformats, hreplacements⟩ :=
    Shape.mk.inj h
  have hdate := blanked_dated (Bool.not_inj hdated)
  have hloop := blanked_binaryLoop hbinaries
  have hplatform : ∀ (found : String) (ps : List String),
      (ps.map (platformArm found)).map Line.blanked =
        List.replicate ps.length (Line.blanked (platformArm found "")) :=
    fun found => map_blanked_map fun _ => rfl
  have hassignment : ∀ (name : String) (as : List Arm),
      (as.map (assignmentArm name)).map Line.blanked =
        List.replicate as.length (Line.blanked (assignmentArm name ⟨"", ""⟩)) :=
    fun name => map_blanked_map fun _ => rfl
  simp only [lines, heading, usage, execution, platformCheck, adjustments, adjustment,
    settings, steps, List.map_append, map_blanked_fixed, map_blanked_caseOf,
    map_blanked_optionalCaseOf, hplatform, hassignment, List.map_cons, List.map_nil, hwrap,
    hsupported, hexcluded, hformats, hreplacements, hloop, hdate, blanked_append]
  rfl

/-- A nonempty text of references, and of characters that do nothing. -/
def IsHarmless (v : String) : Prop :=
  v ≠ "" ∧ ∃ parts : List (List Char), v.toList = parts.flatten ∧ ∀ p ∈ parts, IsAtom p

theorem isHarmless_of_isWord {v : String} (h : isWord v = true) : IsHarmless v :=
  ⟨(isWord_iff.mp h).1, (isExpression_of_isWord h).exists_atoms⟩

theorem isHarmless_of_assignment {target e : String} (ht : isWord target = true)
    (he : IsExpression e.toList) : IsHarmless (target ++ e) := by
  refine ⟨?_, (isExpression_append_of_isWord ht he).exists_atoms⟩
  intro h
  exact (isWord_iff.mp ht).1 (String.append_eq_empty_iff.mp h).1

theorem isHarmless_arms {as : List Arm}
    (h : ∀ a ∈ as, isWord a.pattern = true ∧ isWord a.value = true) :
    ∀ v ∈ as.flatMap Arm.values, IsHarmless v := by
  intro v hv
  obtain ⟨a, ha, hv⟩ := List.mem_flatMap.mp hv
  simp only [Arm.values, List.mem_cons, List.not_mem_nil, or_false] at hv
  rcases hv with rfl | rfl
  · exact isHarmless_of_isWord (h a ha).1
  · exact isHarmless_of_isWord (h a ha).2

theorem IsInert.isHarmless (h : i.IsInert) : ∀ v ∈ i.insertions, IsHarmless v := by
  have harchive : IsHarmless i.archiveName := by
    obtain ⟨e, heq, he⟩ := h.archiveName
    rw [heq]
    exact isHarmless_of_assignment (by decide) he
  have hchecksum : IsHarmless i.checksumName := by
    obtain ⟨e, heq, he⟩ := h.checksumName
    rw [heq]
    exact isHarmless_of_assignment (by decide) he
  have hreplacements := isHarmless_arms h.replacements
  simp only [insertions, List.forall_mem_append, List.forall_mem_cons]
  refine ⟨⟨⟨⟨⟨⟨⟨?_, ?_⟩, ?_⟩, ?_⟩, isHarmless_arms h.formatOverrides⟩, hreplacements⟩,
    hreplacements⟩, ?_⟩
  · exact ⟨isHarmless_of_isWord h.owner, isHarmless_of_isWord h.repo,
      isHarmless_of_isWord h.isWord_repoUrl, by simp⟩
  · exact fun b hb => isHarmless_of_isWord (h.binaries b hb)
  · exact fun p hp => isHarmless_of_isWord (h.supported p hp).isWord
  · exact fun p hp => isHarmless_of_isWord (h.excluded p hp).isWord
  · exact ⟨isHarmless_of_isWord h.projectName, isHarmless_of_isWord h.owner,
      isHarmless_of_isWord h.repo, isHarmless_of_isWord h.binary, isHarmless_of_isWord h.format,
      harchive, hchecksum, by simp⟩

/-- A script that is the same text as always, with harmless values in it. -/
structure IsFilledTemplate (i : Installer) : Prop where
  text : i.script.toList = textOf i.lines
  /-- No value adds a line. -/
  lines : Text.lines i.script.toList = i.lines.map Line.text
  lineCount : (Text.lines i.script.toList).length = i.shape.lineCount
  around : ∀ j : Installer, j.shape = i.shape →
    j.lines.map Line.blanked = i.lines.map Line.blanked
  heading : i.lines = fixed ["#!/bin/sh", "set -e"] ++ [i.datedLine] ++ i.undatedLines
  /-- The line with the version and the date is a remark. -/
  remark : i.datedLine.text.head? = some '#'
  values : i.undatedLines.flatMap Line.values = i.insertions
  harmless : ∀ v ∈ i.insertions, IsHarmless v
  noExpression : ¬ ['\x7b', '\x7b'] <:+: i.script.toList
  noStatement : ¬ ['\x7b', '%'] <:+: i.script.toList
  noReturn : ¬ ['\r', '\n'] <:+: i.script.toList

theorem IsInert.isFilledTemplate (h : i.IsInert) (hdate : IsDate i.generatedAt)
    (hbrace : ∀ d ∈ i.generatedAt, '\x7b' ∉ d.toList) : i.IsFilledTemplate := by
  have htext := toList_script_of_isInert h hdate
  have hlines := lines_script h hdate
  have hchain : i.script.toList.IsChain MayPrecede := by
    rw [htext]
    exact (textOf_isSeamless (lines_isWhole h hdate hbrace)).chain
  exact {
    text := htext
    lines := hlines
    lineCount := by rw [hlines, List.length_map, length_lines]
    around := fun _ hj => map_blanked_lines hj
    heading := lines_eq i
    remark := by rw [text_datedLine h.version]; rfl
    values := flatMap_values_undatedLines i
    harmless := h.isHarmless
    noExpression := not_infix_of_isChain hchain (by unfold MayPrecede; decide)
    noStatement := not_infix_of_isChain hchain (by unfold MayPrecede; decide)
    noReturn := not_infix_of_isChain hchain (by unfold MayPrecede; decide) }

/-- A valid release whose names can be translated always has a script, and nothing that the release
says is more in the script than a value. -/
theorem exists_isFilledTemplate {r : Release} {archiveName checksumName : Assignment}
    {date : Option String} (hr : r.validate = .ok ())
    (harchive : NameTemplate.assign archiveTarget r.archive.nameTemplate = .ok archiveName)
    (hchecksum : NameTemplate.assign checksumTarget r.checksumTemplate = .ok checksumName)
    (hdate : IsDate date) (hbrace : ∀ d ∈ date, '\x7b' ∉ d.toList) :
    ∃ i, ofRelease r date = .ok i ∧ i.IsInert ∧ i.IsFilledTemplate := by
  obtain ⟨primary, rest, -, hi, hinert⟩ := exists_ofRelease hr harchive hchecksum date
  exact ⟨_, hi, hinert, hinert.isFilledTemplate hdate hbrace⟩

theorem exists_isFilledTemplate_arm : ∃ i, ofRelease armRelease (some "2024-02-29") = .ok i ∧
    i.IsInert ∧ i.IsFilledTemplate :=
  exists_isFilledTemplate validate_armRelease assign_armArchive assign_armChecksum (by decide)
    (by decide)

end ReleaseInstaller.Installer
