import ReleaseInstaller.Proofs.Generation.Output
import ReleaseInstaller.Proofs.Installer.Cases
import ReleaseInstaller.Proofs.Script.Substance

/-! What a script does tells every value that went into it, apart from the date. -/
namespace ReleaseInstaller.Installer
open Text Script Shell NameTemplate Release

/-- What lines do, line by line. -/
def doings (ls : List Line) : List (List (List Char)) := phrases (ls.map Line.text)

theorem doings_append (l l' : List Line) : doings (l ++ l') = doings l ++ doings l' := by
  rw [doings, List.map_append, phrases_append]
  rfl

theorem doings_singleton {l : Line} (h : isPhrase (words l.text) = true) :
    doings [l] = [words l.text] := phrases_cons h []

/-- Lines that do the same agree in something, whatever comes after them. -/
def Tell (l l' : List Line) (same : Prop) : Prop :=
  ∀ s t, doings l ++ s = doings l' ++ t → same ∧ s = t

section Tell
variable {l l' m m' : List Line} {p q : Prop}

theorem tell_refl (l : List Line) : Tell l l True :=
  fun _ _ h => ⟨trivial, List.append_cancel_left h⟩

theorem Tell.append (h : Tell l l' p) (h' : Tell m m' q) : Tell (l ++ m) (l' ++ m') (p ∧ q) := by
  intro s t heq
  rw [doings_append, doings_append, List.append_assoc, List.append_assoc] at heq
  obtain ⟨hp, hrest⟩ := h _ _ heq
  obtain ⟨hq, hst⟩ := h' _ _ hrest
  exact ⟨⟨hp, hq⟩, hst⟩

theorem Tell.imp (h : Tell l l' p) (hpq : p → q) : Tell l l' q := by
  intro s t heq
  obtain ⟨hp, hst⟩ := h s t heq
  exact ⟨hpq hp, hst⟩

theorem tell_line {line line' : Line} (h : isPhrase (words line.text) = true)
    (h' : isPhrase (words line'.text) = true) :
    Tell [line] [line'] (words line.text = words line'.text) := by
  intro s t heq
  rw [doings_singleton h, doings_singleton h'] at heq
  exact List.cons.inj heq

end Tell

/-- A word that does not begin a remark. -/
structure IsCommand (w : List Char) : Prop extends IsSolid w where
  head : w.head? ≠ some '#'

instance (w : List Char) : Decidable (IsCommand w) :=
  decidable_of_iff (IsSolid w ∧ w.head? ≠ some '#') ⟨fun h => ⟨h.1, h.2⟩, fun h => ⟨h.1, h.2⟩⟩

theorem IsCommand.append {w v : List Char} (h : IsCommand w) (hv : ∀ c ∈ v, isBlank c = false) :
    IsCommand (w ++ v) := by
  refine ⟨h.toIsSolid.append hv, ?_⟩
  obtain ⟨c, rest, rfl⟩ := List.exists_cons_of_ne_nil h.ne_nil
  exact h.head

theorem IsCommand.isPhrase_words {w : List Char} (h : IsCommand w) :
    isPhrase (words w) = true := by
  rw [h.toIsSolid.words]
  simpa [isPhrase] using h.head

theorem IsCommand.isPhrase_words_append {w : List Char} {c : Char} (h : IsCommand w)
    (hc : isBlank c = true) (s : List Char) : isPhrase (words (w ++ c :: s)) = true := by
  rw [h.toIsSolid.words_append hc]
  simpa [isPhrase] using h.head

/-- A line that is one word is told by what it does. -/
theorem tell_command {line line' : Line} (h : IsCommand line.text) (h' : IsCommand line'.text) :
    Tell [line] [line'] (line.text = line'.text) := by
  refine (tell_line h.isPhrase_words h'.isPhrase_words).imp fun heq => ?_
  rw [h.toIsSolid.words, h'.toIsSolid.words] at heq
  exact (List.cons.inj heq).1

section Arms
variable {a b : CaseArm}

theorem isCommand_of_isWord {w : String} (h : isWord w = true) : IsCommand w.toList := by
  obtain ⟨hne, hchars⟩ := isWord_iff.mp h
  refine ⟨⟨mt String.toList_eq_nil_iff.mp hne, fun c hc => isBlank_of_isWordChar (hchars c hc)⟩, ?_⟩
  intro hhead
  exact absurd (hchars '#' (List.mem_of_head? hhead)) (by decide)

theorem isWordChar_of_isVariableName {name : List Char} (h : isVariableName name = true) :
    ∀ c ∈ name, isWordChar c = true := by
  cases name with
  | nil => simp
  | cons d rest =>
    simp only [isVariableName, Bool.and_eq_true, Bool.or_eq_true, List.all_eq_true, beq_iff_eq] at h
    rw [List.forall_mem_cons]
    constructor
    · rcases h.1 with hd | rfl
      · simp [isWordChar, Char.isAlphanum, hd]
      · decide
    · intro c hc
      rcases h.2 c hc with hd | rfl
      · simp [isWordChar, hd]
      · decide

/-- The words of an arm. -/
theorem words_line (h : a.IsLiteral) : words a.line =
    [a.pattern.toList ++ [')'], a.name.toList ++ '=' :: a.value.toList, ";;".toList] := by
  have hpattern := (isCommand_of_isWord h.pattern).append (v := [')']) (noBlank_of_any rfl)
  have hname : IsSolid (a.name.toList ++ '=' :: a.value.toList) := by
    refine ⟨by simp, List.forall_mem_append.mpr ⟨?_, List.forall_mem_cons.mpr ⟨by decide, ?_⟩⟩⟩
    · exact fun c hc => isBlank_of_isWordChar (isWordChar_of_isVariableName h.name c hc)
    · exact (isCommand_of_isWord h.value).noBlank
  have hend : IsSolid ";;".toList := by decide
  have hline : trimStart a.line = (a.pattern.toList ++ [')']) ++
      ' ' :: ((a.name.toList ++ '=' :: a.value.toList) ++ ' ' :: ";;".toList) := by
    rw [CaseArm.trimStart_line h]
    simp
  rw [← words_trimStart, hline, hpattern.words_append (by decide), hname.words_append (by decide),
    hend.words]

/-- The words of an arm are those of no other arm. -/
theorem eq_of_words_line (ha : a.IsLiteral) (hb : b.IsLiteral) (h : words a.line = words b.line) :
    a = b := by
  rw [words_line ha, words_line hb] at h
  obtain ⟨hpattern, h⟩ := List.cons.inj h
  have hassignment := (List.cons.inj h).1
  have hsplit := splitOnce?_append (eq_notMem_of_isVariableName ha.name) a.value.toList
  rw [hassignment, splitOnce?_append (eq_notMem_of_isVariableName hb.name)] at hsplit
  obtain ⟨hname, hvalue⟩ := Prod.mk.inj (Option.some.inj hsplit)
  obtain ⟨pattern, name, value⟩ := a
  rw [CaseArm.mk.injEq]
  exact ⟨String.toList_inj.mp (List.append_cancel_right hpattern), (String.toList_inj.mp hname).symm,
    (String.toList_inj.mp hvalue).symm⟩

theorem isPhrase_line (h : a.IsLiteral) : isPhrase (words a.line) = true := by
  have hpattern := (isCommand_of_isWord h.pattern).append (v := [')']) (noBlank_of_any rfl)
  rw [words_line h]
  simpa [isPhrase] using hpattern.head

theorem phrases_lines {as : List CaseArm} (h : ∀ a ∈ as, a.IsLiteral) :
    phrases (as.map CaseArm.line) = as.map fun a => words a.line := by
  have hmap : (as.map CaseArm.line).map words = as.map fun a => words a.line := List.map_map
  rw [phrases, hmap, List.filter_eq_self, List.forall_mem_map]
  exact fun a ha => isPhrase_line (h a ha)

theorem eq_of_map_words_line {as bs : List CaseArm} (ha : ∀ a ∈ as, a.IsLiteral)
    (hb : ∀ b ∈ bs, b.IsLiteral)
    (h : (as.map fun a => words a.line) = bs.map fun b => words b.line) : as = bs := by
  induction as generalizing bs with
  | nil => exact (List.map_eq_nil_iff.mp h.symm).symm
  | cons a as ih =>
    cases bs with
    | nil => contradiction
    | cons b bs =>
      obtain ⟨haa, has⟩ := List.forall_mem_cons.mp ha
      obtain ⟨hbb, hbs⟩ := List.forall_mem_cons.mp hb
      obtain ⟨hhead, htail⟩ := List.cons.inj h
      rw [eq_of_words_line haa hbb hhead, ih has hbs htail]

end Arms

/-- What stands before a mark, and what stands after it. -/
theorem eq_of_append_mark {α : Type} {e : α} {x y s t : List α} (hx : e ∉ x) (hy : e ∉ y)
    (h : x ++ e :: s = y ++ e :: t) : x = y ∧ s = t := by
  induction x generalizing y with
  | nil =>
    cases y with
    | nil => exact ⟨rfl, (List.cons.inj h).2⟩
    | cons b y => exact absurd (List.cons.inj h).1 fun he => hy (he ▸ List.mem_cons_self)
  | cons a x ih =>
    rw [List.mem_cons, not_or] at hx
    cases y with
    | nil => exact absurd (List.cons.inj h).1.symm hx.1
    | cons b y =>
      rw [List.mem_cons, not_or] at hy
      obtain ⟨hab, hrest⟩ := List.cons.inj h
      obtain ⟨hxy, hst⟩ := ih hx.2 hy.2 hrest
      exact ⟨by rw [hab, hxy], hst⟩

section Cases
variable {word : String} {ls ls' : List Line} {as bs : List CaseArm}

/-- The arms of a statement, and the one word that ends it. -/
theorem doings_caseOf (hopen : isPhrase (words ("  case " ++ word ++ " in").toList) = true)
    (htext : ls.map Line.text = as.map CaseArm.line) (h : ∀ a ∈ as, a.IsLiteral) :
    doings (caseOf word ls) = words ("  case " ++ word ++ " in").toList ::
      ((as.map fun a => words a.line) ++ [["esac".toList]]) := by
  have hend : phrases ["  esac".toList] = [["esac".toList]] := by decide
  rw [doings, map_text_caseOf, htext, phrases_cons hopen, phrases_append, phrases_lines h, hend]

theorem tell_caseOf (hopen : isPhrase (words ("  case " ++ word ++ " in").toList) = true)
    (htext : ls.map Line.text = as.map CaseArm.line) (h : ∀ a ∈ as, a.IsLiteral)
    (htext' : ls'.map Line.text = bs.map CaseArm.line) (h' : ∀ b ∈ bs, b.IsLiteral) :
    Tell (caseOf word ls) (caseOf word ls') (as = bs) := by
  intro s t heq
  have hend : ∀ cs : List CaseArm, (∀ c ∈ cs, c.IsLiteral) →
      ["esac".toList] ∉ cs.map fun c => words c.line := by
    intro cs hcs hm
    obtain ⟨c, hc, hwords⟩ := List.mem_map.mp hm
    rw [words_line (hcs c hc)] at hwords
    exact absurd (List.cons.inj hwords).2 (by simp)
  rw [doings_caseOf hopen htext h, doings_caseOf hopen htext' h', List.cons_append, List.cons_append,
    List.append_assoc, List.append_assoc] at heq
  obtain ⟨harms, hst⟩ := eq_of_append_mark (hend as h) (hend bs h') (List.cons.inj heq).2
  exact ⟨eq_of_map_words_line h h' harms, hst⟩

/-- A statement that may be left out, before something that opens none. -/
theorem tell_optionalCaseOf (hopen : isPhrase (words ("  case " ++ word ++ " in").toList) = true)
    (htext : ls.map Line.text = as.map CaseArm.line) (h : ∀ a ∈ as, a.IsLiteral)
    (htext' : ls'.map Line.text = bs.map CaseArm.line) (h' : ∀ b ∈ bs, b.IsLiteral)
    {after : List Line} {next : List (List Char)} {rest : List (List (List Char))}
    (hafter : doings after = next :: rest)
    (hne : next ≠ words ("  case " ++ word ++ " in").toList) :
    Tell (optionalCaseOf word ls ++ after) (optionalCaseOf word ls' ++ after) (as = bs) := by
  intro s t heq
  rw [optionalCaseOf_eq htext, optionalCaseOf_eq htext'] at heq
  by_cases has : as = [] <;> by_cases hbs : bs = []
  · rw [if_pos has, if_pos hbs] at heq
    exact ⟨has.trans hbs.symm, List.append_cancel_left heq⟩
  -- Where only one side has the statement, its first line meets what comes after it on the other.
  · rw [if_pos has, if_neg hbs, doings_append (caseOf word ls'), doings_caseOf hopen htext' h',
      List.nil_append, hafter] at heq
    exact absurd (List.cons.inj heq).1 hne
  · rw [if_neg has, if_pos hbs, doings_append (caseOf word ls), doings_caseOf hopen htext h,
      List.nil_append, hafter] at heq
    exact absurd (List.cons.inj heq).1.symm hne
  · rw [if_neg has, if_neg hbs] at heq
    obtain ⟨⟨harms, -⟩, hst⟩ := (tell_caseOf hopen htext h htext' h').append (tell_refl after) s t heq
    exact ⟨harms, hst⟩

end Cases

variable {i j : Installer}

-- The values in here are told by the settings, so only the number of the lines matters.
theorem usage_tell (hi : i.IsInert) (hj : j.IsInert) : Tell (usage i) (usage j) True := by
  have hfirst : IsCommand "$this:".toList := by decide
  have hname : ∀ owner repo : String, isPhrase (words (Line.text
      [.fixed "$this: download prebuilt binaries for ", .value owner, .fixed "/", .value repo])) =
        true := fun _ _ => hfirst.isPhrase_words_append (by decide) _
  have hpage : ∀ {k : Installer}, k.IsInert →
      isPhrase (words (Line.text [.fixed "   ", .value k.repoUrl, .fixed "/releases"])) = true := by
    intro k hk
    have hurl := (isCommand_of_isWord hk.isWord_repoUrl).append (v := "/releases".toList)
      (noBlank_of_any (by decide))
    have htext : Line.text [.fixed "   ", .value k.repoUrl, .fixed "/releases"] =
        ' ' :: ' ' :: ' ' :: (k.repoUrl.toList ++ "/releases".toList) := by
      simp [Line.text, Piece.text]
    rw [htext, words_cons_blank (by decide), words_cons_blank (by decide),
      words_cons_blank (by decide)]
    exact hurl.isPhrase_words
  have hnames := (tell_line (hname i.owner i.repo) (hname j.owner j.repo)).imp fun _ => trivial
  have hpages := (tell_line (hpage hi) (hpage hj)).imp fun _ => trivial
  exact (((((tell_refl _).append hnames).append (tell_refl _)).append hpages).append
    (tell_refl _)).imp fun _ => trivial

theorem sourceDirectory_tell (wrapped wrapped' : Bool) :
    Tell (sourceDirectory wrapped) (sourceDirectory wrapped') (wrapped = wrapped') := by
  have hwrapped : doings (sourceDirectory true) =
      [["srcdir=\"$\x7btmpdir\x7d/$\x7bNAME\x7d\"".toList],
        ["rm".toList, "-rf".toList, "\"$\x7bsrcdir\x7d\"".toList]] := by decide
  have hplain : doings (sourceDirectory false) = [["srcdir=\"$\x7btmpdir\x7d\"".toList]] := by
    decide
  have hne : ["srcdir=\"$\x7btmpdir\x7d/$\x7bNAME\x7d\"".toList] ≠
      ["srcdir=\"$\x7btmpdir\x7d\"".toList] := by decide
  cases wrapped <;> cases wrapped'
  · exact (tell_refl _).imp fun _ => rfl
  · intro s t h
    rw [hwrapped, hplain] at h
    exact absurd (List.cons.inj h).1.symm hne
  · intro s t h
    rw [hwrapped, hplain] at h
    exact absurd (List.cons.inj h).1 hne
  · exact (tell_refl _).imp fun _ => rfl

/-- A binary in quotation marks. -/
def quotedBinary (b : String) : List Char := '"' :: (b.toList ++ ['"'])

theorem words_quotedBinaries {binaries : List String} (h : ∀ b ∈ binaries, isWord b = true) :
    words ((binaries.flatMap fun b => quotedBinary b ++ [' ']) ++ "; do".toList) =
      binaries.map quotedBinary ++ [[';'], "do".toList] := by
  induction binaries with
  | nil => decide
  | cons b binaries ih =>
    obtain ⟨hb, hrest⟩ := List.forall_mem_cons.mp h
    have hquote : IsSolid (quotedBinary b) := by
      refine .cons (by decide) (List.forall_mem_append.mpr ⟨?_, noBlank_of_any rfl⟩)
      exact (isCommand_of_isWord hb).noBlank
    rw [List.flatMap_cons, List.append_assoc, List.append_assoc, List.singleton_append,
      hquote.words_append (by decide), ih hrest]
    rfl

theorem words_binaryLoop {binaries : List String} (h : ∀ b ∈ binaries, isWord b = true) :
    words (binaryLoop binaries).text = ["for".toList, "binexe".toList, "in".toList] ++
      (binaries.map quotedBinary ++ [[';'], "do".toList]) := by
  have htext : (binaryLoop binaries).text = "  for binexe in".toList ++
      ' ' :: ((binaries.flatMap fun b => quotedBinary b ++ [' ']) ++ "; do".toList) := by
    simp [binaryLoop, Line.text, Piece.text, List.flatMap_assoc, quotedBinary]
  have hlead : words "  for binexe in".toList = ["for".toList, "binexe".toList, "in".toList] := by
    decide
  rw [htext, words_append_blank (by decide), words_quotedBinaries h, hlead]

theorem binaryLoop_tell (hi : i.IsInert) (hj : j.IsInert) :
    Tell [binaryLoop i.binaries] [binaryLoop j.binaries] (i.binaries = j.binaries) := by
  have hphrase : ∀ {bs : List String}, (∀ b ∈ bs, isWord b = true) →
      isPhrase (words (binaryLoop bs).text) = true := by
    intro bs hbs
    rw [words_binaryLoop hbs]
    rfl
  refine (tell_line (hphrase hi.binaries) (hphrase hj.binaries)).imp fun h => ?_
  rw [words_binaryLoop hi.binaries, words_binaryLoop hj.binaries] at h
  have hquoted := List.append_cancel_right (List.append_cancel_left h)
  refine List.map_injective_iff.mpr (fun b c hbc => ?_) hquoted
  exact String.toList_inj.mp (List.append_cancel_right (List.cons.inj hbc).2)

theorem execution_tell (hi : i.IsInert) (hj : j.IsInert) : Tell (execution i) (execution j)
    (i.wrapInDirectory = j.wrapInDirectory ∧ i.binaries = j.binaries) := by
  have hsource := sourceDirectory_tell i.wrapInDirectory j.wrapInDirectory
  exact (((((tell_refl _).append hsource).append (tell_refl _)).append (binaryLoop_tell hi hj)).append
    (tell_refl _)).imp fun h => ⟨h.1.1.1.2, h.1.2⟩

theorem platformCheck_tell (hi : i.IsInert) (hj : j.IsInert) :
    Tell (platformCheck i) (platformCheck j) (i.supported = j.supported ∧ i.excluded = j.excluded) := by
  have hopen : isPhrase (words ("  case " ++ "\"$platform\"" ++ " in").toList) = true := by decide
  have hreturn : doings (fixed ["  return $found", "\x7d"]) =
      [["return".toList, "$found".toList], [['\x7d']]] := by decide
  have hsupported := tell_caseOf hopen (map_text_platformArms "0" i.supported) hi.isLiteral_supported
    (map_text_platformArms "0" j.supported) hj.isLiteral_supported
  have hexcluded := tell_optionalCaseOf hopen (map_text_platformArms "1" i.excluded)
    hi.isLiteral_excluded (map_text_platformArms "1" j.excluded) hj.isLiteral_excluded hreturn
      (by decide)
  have harms : ∀ {found : String} {ps qs : List String},
      platformArms found ps = platformArms found qs → ps = qs := by
    intro found ps qs h
    exact List.map_injective_iff.mpr (fun p q hpq => (CaseArm.mk.inj hpq).1) h
  have htell := ((tell_refl (fixed ["is_supported_platform() \x7b", "  platform=$1", "  found=1"])).append
    hsupported).append hexcluded
  simp only [platformCheck, List.append_assoc] at htell ⊢
  exact htell.imp fun h => ⟨harms h.1.2, harms h.2⟩

theorem adjustment_tell {word name : String} {as bs : List Arm} (opening : List String)
    (hopen : isPhrase (words ("  case " ++ word ++ " in").toList) = true)
    (ha : ∀ a ∈ assignmentArms name as, a.IsLiteral)
    (hb : ∀ b ∈ assignmentArms name bs, b.IsLiteral)
    (hne : ["true".toList] ≠ words ("  case " ++ word ++ " in").toList) :
    Tell (adjustment opening word name as) (adjustment opening word name bs) (as = bs) := by
  have htrue : doings (fixed ["  true", "\x7d"]) = [["true".toList], [['\x7d']]] := by decide
  have hcases := tell_optionalCaseOf hopen (map_text_assignmentArms name as) ha
    (map_text_assignmentArms name bs) hb htrue hne
  have htell := (tell_refl (fixed opening)).append hcases
  simp only [adjustment, List.append_assoc] at htell ⊢
  refine htell.imp fun h => List.map_injective_iff.mpr (fun a b hab => ?_) h.2
  obtain ⟨hpattern, -, hvalue⟩ := CaseArm.mk.inj hab
  rw [Arm.mk.injEq]
  exact ⟨hpattern, hvalue⟩

theorem adjustments_tell (hi : i.IsInert) (hj : j.IsInert) : Tell (adjustments i) (adjustments j)
    (i.formatOverrides = j.formatOverrides ∧ i.replacements = j.replacements) := by
  have hopen : ∀ word ∈ ["$\x7bOS\x7d", "$\x7bARCH\x7d"],
      isPhrase (words ("  case " ++ word ++ " in").toList) = true ∧
        ["true".toList] ≠ words ("  case " ++ word ++ " in").toList := by decide
  have hsystem := hopen "$\x7bOS\x7d" (by decide)
  have harch := hopen "$\x7bARCH\x7d" (by decide)
  have hformats := fun opening => adjustment_tell opening hsystem.1 hi.isLiteral_formatOverrides
    hj.isLiteral_formatOverrides hsystem.2
  have hsystems := fun opening => adjustment_tell opening hsystem.1
    (hi.isLiteral_replacements "OS" (by decide)) (hj.isLiteral_replacements "OS" (by decide)) hsystem.2
  have harchs := fun opening => adjustment_tell opening harch.1
    (hi.isLiteral_replacements "ARCH" (by decide)) (hj.isLiteral_replacements "ARCH" (by decide))
      harch.2
  exact (((hformats _).append (hsystems _)).append (harchs _)).imp fun h => h.1

/-- A line that holds one word tells it. -/
theorem tell_word {line line' : Line} {lead tail v v' : String} (hlead : IsCommand lead.toList)
    (htail : ∀ c ∈ tail.toList, isBlank c = false) (hv : isWord v = true) (hv' : isWord v' = true)
    (htext : line.text = lead.toList ++ v.toList ++ tail.toList)
    (htext' : line'.text = lead.toList ++ v'.toList ++ tail.toList) :
    Tell [line] [line'] (v = v') := by
  have hcommand : ∀ {w : String}, isWord w = true →
      IsCommand (lead.toList ++ w.toList ++ tail.toList) := fun hw =>
    (hlead.append (isCommand_of_isWord hw).noBlank).append htail
  refine (tell_command (htext ▸ hcommand hv) (htext' ▸ hcommand hv')).imp fun h => ?_
  rw [htext, htext'] at h
  exact String.toList_inj.mp (List.append_cancel_left (List.append_cancel_right h))

theorem settings_tell (hi : i.IsInert) (hj : j.IsInert) : Tell (settings i) (settings j)
    (i.projectName = j.projectName ∧ i.owner = j.owner ∧ i.repo = j.repo ∧ i.binary = j.binary ∧
      i.format = j.format) := by
  have hquote : ∀ c ∈ "\"".toList, isBlank c = false := noBlank_of_any (by decide)
  have hnothing : ∀ c ∈ "".toList, isBlank c = false := noBlank_of_any (by decide)
  have hquoted : ∀ {lead v v' : String}, IsCommand lead.toList → isWord v = true →
      isWord v' = true → Tell [[.fixed lead, .value v, .fixed "\""]]
        [[.fixed lead, .value v', .fixed "\""]] (v = v') := fun hlead hv hv' =>
    tell_word hlead hquote hv hv' (by simp [Line.text, Piece.text]) (by simp [Line.text, Piece.text])
  have hplain : ∀ {lead v v' : String}, IsCommand lead.toList → isWord v = true →
      isWord v' = true → Tell [[.fixed lead, .value v]] [[.fixed lead, .value v']] (v = v') :=
    fun hlead hv hv' => tell_word hlead hnothing hv hv' (by simp [Line.text, Piece.text])
      (by simp [Line.text, Piece.text])
  have hleads : ∀ lead ∈ ["PROJECT_NAME=\"", "OWNER=", "REPO=\"", "BINARY=", "FORMAT="],
      IsCommand lead.toList := by decide
  have hproject := hquoted (hleads "PROJECT_NAME=\"" (by decide)) hi.projectName hj.projectName
  have howner := hplain (hleads "OWNER=" (by decide)) hi.owner hj.owner
  have hrepo := hquoted (hleads "REPO=\"" (by decide)) hi.repo hj.repo
  have hbinary := hplain (hleads "BINARY=" (by decide)) hi.binary hj.binary
  have hformat := hplain (hleads "FORMAT=" (by decide)) hi.format hj.format
  exact hproject.append (howner.append (hrepo.append (hbinary.append hformat)))

theorem name_tell {target v v' : String} (htarget : IsCommand target.toList)
    (hv : ∃ e, v = target ++ e ∧ IsExpression e.toList)
    (hv' : ∃ e, v' = target ++ e ∧ IsExpression e.toList) :
    Tell [[.value v]] [[.value v']] (v = v') := by
  have htext : ∀ v : String, Line.text [.value v] = v.toList := by simp [Line.text, Piece.text]
  have hcommand : ∀ {v : String}, (∃ e, v = target ++ e ∧ IsExpression e.toList) →
      IsCommand (Line.text [.value v]) := by
    rintro v ⟨e, rfl, he⟩
    rw [htext, String.toList_append]
    exact htarget.append he.noBlank
  refine (tell_command (hcommand hv) (hcommand hv')).imp fun h => ?_
  rw [htext, htext] at h
  exact String.toList_inj.mp h

theorem steps_tell (hi : i.IsInert) (hj : j.IsInert) : Tell (steps i) (steps j)
    (i.archiveName = j.archiveName ∧ i.checksumName = j.checksumName) := by
  have htarget : IsCommand archiveTarget.toList := by decide
  have htarget' : IsCommand checksumTarget.toList := by decide
  have harchive := name_tell htarget hi.archiveName hj.archiveName
  have hchecksum := name_tell htarget' hi.checksumName hj.checksumName
  exact (((((tell_refl _).append harchive).append (tell_refl _)).append hchecksum).append
    (tell_refl _)).imp fun h => ⟨h.1.1.1.2, h.1.2⟩

/-- All values but the date are told by what comes after it. -/
theorem undatedLines_tell (hi : i.IsInert) (hj : j.IsInert) : Tell i.undatedLines j.undatedLines
    (j = { i with generatedAt := j.generatedAt }) := by
  have htell := (((((((((tell_refl (fixed ["#", ""])).append (usage_tell hi hj)).append
    (tell_refl arguments)).append (execution_tell hi hj)).append (platformCheck_tell hi hj)).append
      (tell_refl release)).append (adjustments_tell hi hj)).append (tell_refl toolbox)).append
        (settings_tell hi hj)).append (steps_tell hi hj)
  refine htell.imp fun h => ?_
  obtain ⟨⟨⟨⟨⟨⟨⟨-, hwrap, hbinaries⟩, hsupported, hexcluded⟩, -⟩, hformats, hreplacements⟩, -⟩,
    hproject, howner, hrepo, hbinary, hformat⟩, harchive, hchecksum⟩ := h
  have hversion := hi.version.trans hj.version.symm
  have hurl : i.repoUrl = j.repoUrl := by rw [hi.repoUrl, hj.repoUrl, howner, hrepo]
  cases i
  cases j
  simp_all

/-- Nothing of the heading counts but the option that is set in it. -/
theorem phrases_lines_script (h : i.IsInert) (hdate : IsDate i.generatedAt) :
    phrases (Text.lines i.script.toList) =
      ["set".toList, "-e".toList] :: doings i.undatedLines := by
  have hopening : doings (fixed ["#!/bin/sh", "set -e"]) = [["set".toList, "-e".toList]] := by
    decide
  have hremark : doings [i.datedLine] = [] := by
    simp [doings, phrases, isPhrase_datedLine h.version]
  have hlines := lines_script h hdate
  rw [lines_eq] at hlines
  rw [hlines]
  change doings _ = _
  rw [doings_append, doings_append, hopening, hremark, List.append_nil, List.singleton_append]

/-- Installers whose scripts do the same differ at most in their dates. -/
theorem substance_script_eq_iff (hi : i.IsInert) (hj : j.IsInert) (hdate : IsDate i.generatedAt)
    (hdate' : IsDate j.generatedAt) : substance i.script.toList = substance j.script.toList ↔
      j = { i with generatedAt := j.generatedAt } := by
  rw [substance_eq_iff, phrases_lines_script hi hdate, phrases_lines_script hj hdate']
  constructor
  · intro h
    refine (undatedLines_tell hi hj [] [] ?_).1
    rw [List.append_nil, List.append_nil]
    exact (List.cons.inj h).2
  · intro h
    rw [h, undatedLines_redated i j.generatedAt]

/-- What stands around the date is the same for all dates. -/
theorem toList_script_eq (h : i.version = currentVersion) (hdate : IsDate i.generatedAt) :
    i.script.toList = unixNewlines (textOf (fixed ["#!/bin/sh", "set -e"])) ++
      ("# Code generated by binfetch 0.4.0".toList ++ Line.text (dated i.generatedAt) ++
        ". DO NOT EDIT.\n".toList) ++ unixNewlines (textOf i.undatedLines) := by
  rw [toList_script i h hdate, text_datedLine h]
  simp [headingLead, headingTail]

/-- Scripts of valid releases do the same only if all that went into them is the same, except for the
dates. So a file is left alone only if nothing but the date in its heading would change. -/
theorem same_substance_iff {r r' : Release} {date date' : Option String} (hr : r.validate = .ok ())
    (hr' : r'.validate = .ok ()) (hi : ofRelease r date = .ok i) (hj : ofRelease r' date' = .ok j)
    (hdate : IsDate date) (hdate' : IsDate date') :
    (substance i.script.toList = substance j.script.toList ↔ j = { i with generatedAt := date' }) ∧
    (substance i.script.toList = substance j.script.toList → ∃ before after,
      i.script.toList = before ++ ("# Code generated by binfetch 0.4.0".toList ++
        Line.text (dated date) ++ ". DO NOT EDIT.\n".toList) ++ after ∧
      j.script.toList = before ++ ("# Code generated by binfetch 0.4.0".toList ++
        Line.text (dated date') ++ ". DO NOT EDIT.\n".toList) ++ after) ∧
    ∀ (s : Store) (path : String), s.text? path = some i.script →
      Generation.shouldWrite s path j.script = .ok (decide (j ≠ { i with generatedAt := date' })) := by
  have hinert := isInert_of_isValid (validate_eq_ok_iff.mp hr) hi
  have hinert' := isInert_of_isValid (validate_eq_ok_iff.mp hr') hj
  obtain ⟨hversion, rfl, -⟩ := ofRelease_redated hi
  obtain ⟨hversion', rfl, -⟩ := ofRelease_redated hj
  have hsame := substance_script_eq_iff hinert hinert' hdate hdate'
  refine ⟨hsame, fun h => ?_, fun s path htext => ?_⟩
  · have hrest : j.undatedLines = i.undatedLines := by
      rw [hsame.mp h, undatedLines_redated i j.generatedAt]
    refine ⟨_, _, toList_script_eq hversion hdate, ?_⟩
    rw [toList_script_eq hversion' hdate', hrest]
  · have hdiffers : (substance i.script.toList != substance j.script.toList) =
        decide (j ≠ { i with generatedAt := j.generatedAt }) := by
      rw [Bool.eq_iff_iff, bne_iff_ne, decide_eq_true_iff]
      exact not_congr hsame
    rw [Generation.shouldWrite_of_text? htext, hdiffers]

/-- Another date leaves what the script does as it is, and another format does not. -/
theorem same_substance_iff_arm : ∃ i j k, ofRelease armRelease none = .ok i ∧
    ofRelease armRelease (some "2024-02-29") = .ok j ∧ ofRelease closingRelease none = .ok k ∧
    substance i.script.toList = substance j.script.toList ∧
    substance i.script.toList ≠ substance k.script.toList := by
  have hi : ofRelease armRelease none = .ok _ :=
    ofRelease_eq_ok_iff.mpr ⟨_, _, _, _, assign_armArchive, assign_armChecksum, rfl, rfl⟩
  have hj : ofRelease armRelease (some "2024-02-29") = .ok _ :=
    ofRelease_eq_ok_iff.mpr ⟨_, _, _, _, assign_armArchive, assign_armChecksum, rfl, rfl⟩
  have hk : ofRelease closingRelease none = .ok _ :=
    ofRelease_eq_ok_iff.mpr ⟨_, _, _, _, assign_armArchive, assign_armChecksum, rfl, rfl⟩
  have hsame := same_substance_iff validate_armRelease validate_armRelease hi hj (by decide) (by decide)
  have hother := same_substance_iff validate_armRelease validate_closingRelease hi hk (by decide)
    (by decide)
  refine ⟨_, _, _, hi, hj, hk, hsame.1.mpr rfl, fun h => ?_⟩
  have hformats := congrArg Installer.formatOverrides (hother.1.mp h)
  have hne : arms closingRelease.archive.formatOverrides ≠ arms armRelease.archive.formatOverrides := by
    decide +kernel
  exact hne hformats

end ReleaseInstaller.Installer
