import ReleaseInstaller.Proofs.Installer.Dating
import ReleaseInstaller.Proofs.Installer.Inert
import ReleaseInstaller.Proofs.NameTemplate.Expression
import ReleaseInstaller.Proofs.Shell.Case

/-! The lines of an installer. Inert values leave each line what it is: one line, in which nothing opens
a tag of a template. -/
namespace ReleaseInstaller.Installer
open Text Script Shell NameTemplate

/-- Lines of one fixed text each that passes a check. The characters of a text are read off it as it is
written, so that no text has to be decoded for the check. -/
inductive AreFixed (p : List Char → Bool) : List Line → List (List Char) → Prop
  | nil : AreFixed p [] []
  | cons {cs : List Char} {ls : List Line} {css : List (List Char)} (h : p cs = true)
      (hs : AreFixed p ls css) : AreFixed p ([.fixed (String.ofList cs)] :: ls) (cs :: css)

theorem text_fixed (s : String) : Line.text [.fixed s] = s.toList := by
  simp [Line.text, Piece.text]

section Fixed
variable {p : List Char → Bool} {ls : List Line} {css : List (List Char)}

theorem AreFixed.map_text (h : AreFixed p ls css) : ls.map Line.text = css := by
  induction h with
  | nil => rfl
  | cons _ _ ih => rw [List.map_cons, text_fixed, String.toList_ofList, ih]

theorem AreFixed.forall_text (h : AreFixed p ls css) : ∀ l ∈ ls, p l.text = true := by
  induction h with
  | nil => simp
  | cons hcs _ ih =>
    rw [List.forall_mem_cons, text_fixed, String.toList_ofList]
    exact ⟨hcs, ih⟩

end Fixed

/-- One line, and nothing in it or at its end opens a tag. -/
structure IsWhole (l : Line) : Prop where
  isLine : IsLine l.text
  seamless : IsSeamless (l.text ++ ['\n'])

theorem isWhole_of_isClean {l : Line} (h : isClean l.text = true) : IsWhole l :=
  ⟨isLine_of_isClean h, isSeamless_of_isClean h⟩

theorem isWhole_of_areFixed {ls : List Line} {css : List (List Char)} (h : AreFixed isClean ls css) :
    ∀ l ∈ ls, IsWhole l :=
  fun l hl => isWhole_of_isClean (h.forall_text l hl)

/-- A visible character that opens no tag whatever follows it. -/
def isBland (c : Char) : Bool := isVisible c && !Nat.beq c.toNat 123

/-- Lines of bland texts and of values made of inert characters and references. -/
inductive IsTame : Line → Prop
  | nil : IsTame []
  | fixed {cs : List Char} {l : Line} (h : cs.all isBland = true) (hl : IsTame l) :
      IsTame (.fixed (String.ofList cs) :: l)
  | value {v : String} {l : Line} (h : IsExpression v.toList) (hl : IsTame l) :
      IsTame (.value v :: l)

theorem IsTame.append {l l' : Line} (h : IsTame l) (h' : IsTame l') : IsTame (l ++ l') := by
  induction h with
  | nil => exact h'
  | fixed h _ ih => exact .fixed h ih
  | value h _ ih => exact .value h ih

theorem isTame_flatMap {α : Type} {f : α → Line} {xs : List α} (h : ∀ x ∈ xs, IsTame (f x)) :
    IsTame (xs.flatMap f) := by
  induction xs with
  | nil => exact .nil
  | cons x xs ih =>
    obtain ⟨hx, hxs⟩ := List.forall_mem_cons.mp h
    rw [List.flatMap_cons]
    exact hx.append (ih hxs)

theorem text_cons (p : Piece) (l : Line) : Line.text (p :: l) = p.text.toList ++ Line.text l :=
  List.flatMap_cons

theorem ne_of_isBland {c : Char} (h : isBland c = true) :
    c ≠ '\n' ∧ c ≠ '\x7b' ∧ c ≠ '\r' := by
  obtain ⟨hv, hb⟩ := Bool.and_eq_true_iff.mp h
  refine ⟨(ne_of_isVisible hv).1, ?_, (ne_of_isVisible hv).2⟩
  rintro rfl
  exact absurd hb (by decide)

theorem IsTame.noFeed {l : Line} (h : IsTame l) : '\n' ∉ l.text := by
  induction h with
  | nil => simp [Line.text]
  | fixed h _ ih =>
    rw [text_cons, Piece.text, String.toList_ofList, List.mem_append, not_or]
    exact ⟨fun hm => (ne_of_isBland (List.all_eq_true.mp h _ hm)).1 rfl, ih⟩
  | value h _ ih =>
    rw [text_cons, Piece.text, List.mem_append, not_or]
    exact ⟨fun hm => absurd (h.noBlank _ hm) (by decide), ih⟩

theorem IsTame.isSeamless {l : Line} (h : IsTame l) : IsSeamless l.text := by
  induction h with
  | nil => exact isSeamless_nil
  | fixed h _ ih =>
    have hne := fun c hc => ne_of_isBland (List.all_eq_true.mp h c hc)
    rw [text_cons, Piece.text, String.toList_ofList]
    refine IsSeamless.append ⟨?_, ?_⟩ ih
    · exact isChain_of_forall fun c hc => ⟨(hne c hc).2.1, (hne c hc).1⟩
    · exact fun c hc => (hne c (List.mem_of_getLast? hc)).2
  | value h _ ih =>
    rw [text_cons, Piece.text]
    exact h.isSeamless.append ih

theorem IsTame.isWhole {l : Line} (h : IsTame l) : IsWhole l := by
  have hfeed : IsSeamless ['\n'] := ⟨.singleton _, by simp⟩
  refine ⟨⟨h.noFeed, ?_⟩, h.isSeamless.append hfeed⟩
  intro hl
  exact (h.isSeamless.last '\r' hl).2 rfl

section Text
variable {ls : List Line}

theorem textOf_isSeamless (h : ∀ l ∈ ls, IsWhole l) : IsSeamless (textOf ls) :=
  isSeamless_flatMap fun l hl => (h l hl).seamless

/-- Nothing has to be done about the ends of whole lines. -/
theorem unixNewlines_textOf (h : ∀ l ∈ ls, IsLine l.text) : unixNewlines (textOf ls) = textOf ls := by
  induction ls with
  | nil => rfl
  | cons l ls ih =>
    obtain ⟨hl, hls⟩ := List.forall_mem_cons.mp h
    rw [textOf, List.flatMap_cons, unixNewlines_append (wholeLines_feed _), hl.unixNewlines_feed]
    exact congrArg _ (ih hls)

theorem lines_textOf (h : ∀ l ∈ ls, IsLine l.text) : Text.lines (textOf ls) = ls.map Line.text := by
  induction ls with
  | nil => rfl
  | cons l ls ih =>
    obtain ⟨hl, hls⟩ := List.forall_mem_cons.mp h
    rw [textOf, List.flatMap_cons, lines_append (wholeLines_feed _), hl.lines_feed]
    exact congrArg _ (ih hls)

end Text

/-- The functions whose bodies depend on the release. -/
def tailored : List String := ["is_supported_platform", "adjust_format", "adjust_os", "adjust_arch"]

/-- A clean text that is none of the given lines. -/
def isOrdinary (openings : List (List Char)) (line : List Char) : Bool :=
  isClean line && !openings.contains line

/-- A whole line that opens no function whose body depends on the release. -/
structure IsQuiet (l : Line) : Prop where
  whole : IsWhole l
  ne_opening : ∀ name ∈ tailored, l.text ≠ opening name

theorem isQuiet_of_areFixed {ls : List Line} {css : List (List Char)}
    (h : AreFixed (isOrdinary (tailored.map opening)) ls css) : ∀ l ∈ ls, IsQuiet l := by
  intro l hl
  obtain ⟨hclean, hother⟩ := Bool.and_eq_true_iff.mp (h.forall_text l hl)
  refine ⟨isWhole_of_isClean hclean, ?_⟩
  intro name hname heq
  have hmem : l.text ∈ tailored.map opening := heq ▸ List.mem_map_of_mem hname
  simp [hmem] at hother

/-- The line that opens a function ends in a brace, which no tame line does. -/
theorem IsTame.isQuiet {l : Line} (h : IsTame l) : IsQuiet l := by
  refine ⟨h.isWhole, ?_⟩
  intro name _ heq
  have hlast : l.text.getLast? = some '\x7b' := by simp [heq, opening]
  exact (h.isSeamless.last _ hlast).1 rfl

theorem isWhole_fixed {s : String} (h : isClean s.toList = true) : IsWhole [.fixed s] :=
  isWhole_of_isClean (by rwa [text_fixed])

theorem isTame_fixed {s : String} {l : Line} (h : s.toList.all isBland = true) (hl : IsTame l) :
    IsTame (.fixed s :: l) := by
  rw [← String.ofList_toList (s := s)]
  exact .fixed h hl

theorem platformArm_isTame {found p : String}
    (hfound : (") found=" ++ found ++ " ;;").toList.all isBland = true) (hp : IsPlatformName p) :
    IsTame (platformArm found p) := by
  have hvalue := isExpression_of_isWord hp.isWord
  exact .fixed (by decide) (.value hvalue (isTame_fixed hfound .nil))

theorem assignmentArm_isTame {name : String} {a : Arm}
    (hname : (") " ++ name ++ "=").toList.all isBland = true) (hpattern : isWord a.pattern = true)
    (hvalue : isWord a.value = true) : IsTame (assignmentArm name a) := by
  have hp := isExpression_of_isWord hpattern
  have hv := isExpression_of_isWord hvalue
  have hend : IsTame [.fixed " ;;"] := .fixed (by decide) .nil
  exact .fixed (by decide) (.value hp (isTame_fixed hname (.value hv hend)))

section Cases
variable {subject : String} {arms : List Line}

theorem caseOf_forall {p : Line → Prop} (hopen : p [.fixed ("  case " ++ subject ++ " in")])
    (harms : ∀ l ∈ arms, p l) (hend : p [.fixed "  esac"]) : ∀ l ∈ caseOf subject arms, p l := by
  rw [caseOf, List.forall_mem_append, List.forall_mem_cons, List.forall_mem_singleton]
  exact ⟨⟨hopen, harms⟩, hend⟩

theorem optionalCaseOf_forall {p : Line → Prop} (hopen : p [.fixed ("  case " ++ subject ++ " in")])
    (harms : ∀ l ∈ arms, p l) (hend : p [.fixed "  esac"]) :
    ∀ l ∈ optionalCaseOf subject arms, p l := by
  unfold optionalCaseOf
  split
  · simp
  · exact caseOf_forall hopen harms hend

end Cases

/-! The parts of the script, one by one. -/

section Parts
variable {i : Installer}

theorem datedLine_isWhole (h : i.IsInert) (hdate : IsDate i.generatedAt)
    (hbrace : ∀ d ∈ i.generatedAt, '\x7b' ∉ d.toList) : IsWhole i.datedLine := by
  have hline := datedLine_isLine h.version hdate
  have htext : '\x7b' ∉ Line.text (dated i.generatedAt) := by
    rcases text_dated i.generatedAt with ht | ⟨d, hd, ht⟩
    · simp [ht]
    · have hon : '\x7b' ∉ " on ".toList := by decide
      rw [ht, List.mem_append, not_or]
      exact ⟨hon, hbrace d hd⟩
  have hlead : '\x7b' ∉ headingLead.toList := by decide
  have hgenerator : '\x7b' ∉ "binfetch 0.4.0".toList := by decide
  have htail : '\x7b' ∉ headingTail.toList := by decide
  have hnone : '\x7b' ∉ i.datedLine.text := by
    rw [text_datedLine h.version]
    simp only [List.mem_append, not_or]
    exact ⟨hlead, ⟨hgenerator, htext⟩, htail⟩
  have hfeed : IsSeamless ['\n'] := ⟨.singleton _, by simp⟩
  refine ⟨hline, IsSeamless.append ⟨?_, ?_⟩ hfeed⟩
  · refine isChain_of_forall fun c hc => ⟨?_, ?_⟩ <;> rintro rfl
    · exact hnone hc
    · exact hline.noFeed hc
  · refine fun c hc => ⟨?_, ?_⟩ <;> rintro rfl
    · exact hnone (List.mem_of_getLast? hc)
    · exact hline.noReturn hc

theorem opening_isWhole : ∀ l ∈ fixed ["#!/bin/sh", "set -e"], IsWhole l :=
  isWhole_of_areFixed (by repeat constructor)

theorem usage_isWhole (h : i.IsInert) : ∀ l ∈ usage i, IsWhole l := by
  have howner := isExpression_of_isWord h.owner
  have hrepo := isExpression_of_isWord h.repo
  have hurl := isExpression_of_isWord h.isWord_repoUrl
  have hname : IsTame [.fixed "$this: download prebuilt binaries for ", .value i.owner, .fixed "/",
      .value i.repo] :=
    .fixed (by decide) (.value howner (.fixed (by decide) (.value hrepo .nil)))
  have hpage : IsTame [.fixed "   ", .value i.repoUrl, .fixed "/releases"] :=
    .fixed (by decide) (.value hurl (.fixed (by decide) .nil))
  simp only [usage, List.forall_mem_append, List.forall_mem_singleton]
  refine ⟨⟨⟨⟨?_, hname.isWhole⟩, ?_⟩, hpage.isWhole⟩, ?_⟩
  all_goals exact isWhole_of_areFixed (by repeat constructor)

theorem arguments_isWhole : ∀ l ∈ arguments, IsWhole l := isWhole_of_areFixed (by repeat constructor)

theorem sourceDirectory_isWhole (wrapped : Bool) : ∀ l ∈ sourceDirectory wrapped, IsWhole l := by
  cases wrapped <;> exact isWhole_of_areFixed (by repeat constructor)

theorem binaryLoop_isTame {binaries : List String} (h : ∀ b ∈ binaries, isWord b = true) :
    IsTame (binaryLoop binaries) := by
  have hquoted : ∀ b ∈ binaries, IsTame [.fixed "\"", .value b, .fixed "\" "] := fun b hb =>
    .fixed (by decide) (.value (isExpression_of_isWord (h b hb))
      (.fixed (by decide) .nil))
  have hlead : IsTame [.fixed "  for binexe in "] := .fixed (by decide) .nil
  have htail : IsTame [.fixed "; do"] := .fixed (by decide) .nil
  exact (hlead.append (isTame_flatMap hquoted)).append htail

theorem execution_isWhole (h : i.IsInert) : ∀ l ∈ execution i, IsWhole l := by
  have hloop := binaryLoop_isTame h.binaries
  simp only [execution, List.forall_mem_append, List.forall_mem_singleton]
  refine ⟨⟨⟨⟨?_, sourceDirectory_isWhole i.wrapInDirectory⟩, ?_⟩, hloop.isWhole⟩, ?_⟩
  all_goals exact isWhole_of_areFixed (by repeat constructor)

theorem platformCheck_isWhole (h : i.IsInert) : ∀ l ∈ platformCheck i, IsWhole l := by
  have hopen : IsWhole [.fixed ("  case " ++ "\"$platform\"" ++ " in")] :=
    isWhole_fixed (by decide)
  have hend : IsWhole [.fixed "  esac"] := isWhole_fixed (by decide)
  have hsupported : ∀ l ∈ i.supported.map (platformArm "0"), IsWhole l := by
    rw [List.forall_mem_map]
    exact fun p hp => (platformArm_isTame (by decide) (h.supported p hp)).isWhole
  have hexcluded : ∀ l ∈ i.excluded.map (platformArm "1"), IsWhole l := by
    rw [List.forall_mem_map]
    exact fun p hp => (platformArm_isTame (by decide) (h.excluded p hp)).isWhole
  simp only [platformCheck, List.forall_mem_append]
  refine ⟨⟨⟨?_, caseOf_forall hopen hsupported hend⟩, optionalCaseOf_forall hopen hexcluded hend⟩, ?_⟩
  all_goals exact isWhole_of_areFixed (by repeat constructor)

theorem adjustment_isWhole {opening : List String} {subject name : String} {arms : List Arm}
    (hopening : ∀ l ∈ fixed opening, IsWhole l)
    (hsubject : isClean ("  case " ++ subject ++ " in").toList = true)
    (hname : (") " ++ name ++ "=").toList.all isBland = true)
    (harms : ∀ a ∈ arms, isWord a.pattern = true ∧ isWord a.value = true) :
    ∀ l ∈ adjustment opening subject name arms, IsWhole l := by
  have hend : IsWhole [.fixed "  esac"] := isWhole_fixed (by decide)
  have hlines : ∀ l ∈ arms.map (assignmentArm name), IsWhole l := by
    rw [List.forall_mem_map]
    exact fun a ha => (assignmentArm_isTame hname (harms a ha).1 (harms a ha).2).isWhole
  simp only [adjustment, List.forall_mem_append]
  exact ⟨⟨hopening, optionalCaseOf_forall (isWhole_fixed hsubject) hlines hend⟩,
    isWhole_of_areFixed (by repeat constructor)⟩

theorem adjustments_isWhole (h : i.IsInert) : ∀ l ∈ adjustments i, IsWhole l := by
  simp only [adjustments, List.forall_mem_append]
  refine ⟨⟨adjustment_isWhole ?_ (by decide) (by decide) h.formatOverrides,
    adjustment_isWhole ?_ (by decide) (by decide) h.replacements⟩,
    adjustment_isWhole ?_ (by decide) (by decide) h.replacements⟩
  all_goals exact isWhole_of_areFixed (by repeat constructor)

theorem release_isQuiet : ∀ l ∈ release, IsQuiet l := isQuiet_of_areFixed (by repeat constructor)

theorem toolbox_isQuiet : ∀ l ∈ toolbox, IsQuiet l := isQuiet_of_areFixed (by repeat constructor)

theorem settings_isTame (h : i.IsInert) : ∀ l ∈ settings i, IsTame l := by
  have hproject := isExpression_of_isWord h.projectName
  have howner := isExpression_of_isWord h.owner
  have hrepo := isExpression_of_isWord h.repo
  have hbinary := isExpression_of_isWord h.binary
  have hformat := isExpression_of_isWord h.format
  simp only [settings, List.forall_mem_cons]
  refine ⟨?_, ?_, ?_, ?_, ?_, by simp⟩
  · exact .fixed (by decide) (.value hproject (.fixed (by decide) .nil))
  · exact .fixed (by decide) (.value howner .nil)
  · exact .fixed (by decide) (.value hrepo (.fixed (by decide) .nil))
  · exact .fixed (by decide) (.value hbinary .nil)
  · exact .fixed (by decide) (.value hformat .nil)

theorem steps_isQuiet (h : i.IsInert) : ∀ l ∈ steps i, IsQuiet l := by
  have harchive : IsTame [.value i.archiveName] := .value h.archiveName_isExpression .nil
  have hchecksum : IsTame [.value i.checksumName] := .value h.checksumName_isExpression .nil
  simp only [steps, List.forall_mem_append, List.forall_mem_singleton]
  refine ⟨⟨⟨⟨?_, harchive.isQuiet⟩, ?_⟩, hchecksum.isQuiet⟩, ?_⟩
  all_goals exact isQuiet_of_areFixed (by repeat constructor)

theorem undatedLines_isWhole (h : i.IsInert) : ∀ l ∈ i.undatedLines, IsWhole l := by
  have hremark : ∀ l ∈ fixed ["#", ""], IsWhole l := isWhole_of_areFixed (by repeat constructor)
  have hsettings := fun l hl => (settings_isTame h l hl).isWhole
  have hsteps := fun l hl => (steps_isQuiet h l hl).whole
  have hrelease := fun l hl => (release_isQuiet l hl).whole
  have htoolbox := fun l hl => (toolbox_isQuiet l hl).whole
  simp only [undatedLines, List.forall_mem_append]
  exact ⟨⟨⟨⟨⟨⟨⟨⟨⟨hremark, usage_isWhole h⟩, arguments_isWhole⟩, execution_isWhole h⟩,
    platformCheck_isWhole h⟩, hrelease⟩, adjustments_isWhole h⟩, htoolbox⟩, hsettings⟩, hsteps⟩

theorem lines_isLine (h : i.IsInert) (hdate : IsDate i.generatedAt) :
    ∀ l ∈ i.lines, IsLine l.text := by
  rw [lines_eq]
  simp only [List.forall_mem_append, List.forall_mem_singleton]
  exact ⟨⟨fun l hl => (opening_isWhole l hl).isLine, datedLine_isLine h.version hdate⟩,
    fun l hl => (undatedLines_isWhole h l hl).isLine⟩

theorem lines_isWhole (h : i.IsInert) (hdate : IsDate i.generatedAt)
    (hbrace : ∀ d ∈ i.generatedAt, '\x7b' ∉ d.toList) : ∀ l ∈ i.lines, IsWhole l := by
  rw [lines_eq]
  simp only [List.forall_mem_append, List.forall_mem_singleton]
  exact ⟨⟨opening_isWhole, datedLine_isWhole h hdate hbrace⟩, undatedLines_isWhole h⟩

end Parts

/-- The text of a script is that of its lines, and it has no other lines. -/
theorem toList_script_of_isInert {i : Installer} (h : i.IsInert) (hdate : IsDate i.generatedAt) :
    i.script.toList = textOf i.lines := by
  rw [script, String.toList_ofList, unixNewlines_textOf (lines_isLine h hdate)]

theorem unixNewlines_script {i : Installer} (h : i.IsInert) (hdate : IsDate i.generatedAt) :
    unixNewlines i.script.toList = i.script.toList := by
  rw [toList_script_of_isInert h hdate, unixNewlines_textOf (lines_isLine h hdate)]

theorem lines_script {i : Installer} (h : i.IsInert) (hdate : IsDate i.generatedAt) :
    Text.lines i.script.toList = i.lines.map Line.text := by
  rw [toList_script_of_isInert h hdate, lines_textOf (lines_isLine h hdate)]

/-- Whatever the date is, the lines after the one that holds it are the last ones of the script. -/
theorem exists_lines_script {i : Installer} (h : i.IsInert) : ∃ before,
    Text.lines i.script.toList = before ++ i.undatedLines.map Line.text := by
  have hrest : ∀ l ∈ i.undatedLines, IsLine l.text := fun l hl => (undatedLines_isWhole h l hl).isLine
  have hwhole := textOf_wholeLines (fixed ["#!/bin/sh", "set -e"] ++ [i.datedLine])
  rw [script, String.toList_ofList, lines_eq, textOf_append, unixNewlines_append hwhole,
    lines_append (unixNewlines_wholeLines hwhole), unixNewlines_textOf hrest, lines_textOf hrest]
  exact ⟨_, rfl⟩

end ReleaseInstaller.Installer
