import ReleaseInstaller.Installer.Rendering
import ReleaseInstaller.Proofs.Except
import ReleaseInstaller.Proofs.Installer.Dating
import ReleaseInstaller.Proofs.Project.Reading
import ReleaseInstaller.Proofs.Template.Strictness

/-! The template with all values of an installer gives the script of the installer, part by part. -/
namespace ReleaseInstaller.Installer
open Template Text

section Lines
variable {values : Scope}

/-- What becomes of a piece of the template with the given values. -/
def Piece.become? (values : Scope) : Piece → Option Piece
  | fixed s => some (.fixed s)
  | value name =>
    match Template.find? values [name] with
    | some (.text s) => some (.value s)
    | _ => none

/-- The lines of the template become these lines. -/
def Become (values : Scope) (ls ls' : List Line) : Prop :=
  ls.mapM (fun l => l.mapM (Piece.become? values)) = some ls'

theorem render_append_ok {parts parts' : List Part} {text text' : List Char}
    (h : Template.render values parts = .ok text) (h' : Template.render values parts' = .ok text') :
    Template.render values (parts ++ parts') = .ok (text ++ text') := by
  rw [render_append, h, h']
  rfl

theorem render_singleton {p : Part} {text : List Char} (h : p.render values = .ok text) :
    Template.render values [p] = .ok text := by
  rw [Template.render, h]
  exact congrArg Except.ok (List.append_nil text)

theorem render_piece {p p' : Piece} (h : p.become? values = some p') :
    p.part.render values = .ok p'.text.toList := by
  cases p with
  | fixed s =>
    obtain rfl := Option.some.inj h
    rfl
  | value name =>
    rw [Piece.become?] at h
    split at h
    · rename_i s hfind
      obtain rfl := Option.some.inj h
      rw [Piece.part, Part.render, hfind]
      rfl
    · exact absurd h.symm (Option.some_ne_none p')

theorem render_pieces {l l' : Line} (h : l.mapM (Piece.become? values) = some l') :
    Template.render values (l.map Piece.part) = .ok l'.text := by
  rw [mapM_eq_some_iff] at h
  induction h with
  | nil => rfl
  | cons hpiece _ ih => exact render_append_ok (render_singleton (render_piece hpiece)) ih

theorem render_partsOf {ls ls' : List Line} (h : Become values ls ls') :
    Template.render values (partsOf ls) = .ok (textOf ls') := by
  rw [Become, mapM_eq_some_iff] at h
  induction h with
  | nil => rfl
  | cons hline _ ih =>
    have hfeed : Template.render values [.fixed "\n"] = .ok ['\n'] := rfl
    exact render_append_ok (render_append_ok (render_pieces hline) hfeed) ih

theorem become_fixed (ls : List String) : Become values (fixed ls) (fixed ls) := by
  refine mapM_eq_some_iff.mpr ?_
  induction ls with
  | nil => exact .nil
  | cons s ls ih => exact .cons rfl ih

theorem Become.append {ls ls' ms ms' : List Line} (h : Become values ls ls')
    (h' : Become values ms ms') : Become values (ls ++ ms) (ls' ++ ms') :=
  mapM_eq_some_iff.mpr (List.rel_append (mapM_eq_some_iff.mp h) (mapM_eq_some_iff.mp h'))

theorem render_fixed (ls : List String) :
    Template.render values (partsOf (fixed ls)) = .ok (textOf (fixed ls)) :=
  render_partsOf (become_fixed ls)

end Lines

section Loops
variable {α : Type} {values : Scope} {name subject : String} {path : List String}
  {arm : List Part} {valueOf : α → Value} {xs : List α}

theorem render_each {result : α → List Char}
    (hfind : Template.find? values path = some (.list (xs.map valueOf)))
    (harm : ∀ x ∈ xs, Template.render ((name, valueOf x) :: values) arm = .ok (result x)) :
    (Part.each name path arm).render values = .ok (xs.flatMap result) := by
  have hitems : (xs.map valueOf).mapM (fun v => Template.render ((name, v) :: values) arm) =
      .ok (xs.map result) := by
    clear hfind
    induction xs with
    | nil => rfl
    | cons x xs ih =>
      obtain ⟨hx, hxs⟩ := List.forall_mem_cons.mp harm
      rw [List.map_cons, List.mapM_cons, hx, ih hxs]
      rfl
  rw [Part.render, hfind]
  simp only [need, Value.items?, ok_bind, hitems]
  exact congrArg Except.ok List.flatMap_def.symm

variable {lineOf : α → Line}

theorem render_caseParts (hfind : Template.find? values path = some (.list (xs.map valueOf)))
    (harm : ∀ x ∈ xs, Template.render ((name, valueOf x) :: values) arm = .ok (textOf [lineOf x])) :
    Template.render values (caseParts subject name path arm) =
      .ok (textOf (caseOf subject (xs.map lineOf))) := by
  have hloop : Template.render values [.each name path arm] = .ok (textOf (xs.map lineOf)) := by
    refine (render_singleton (render_each hfind harm)).trans (congrArg Except.ok ?_)
    simp [textOf, List.flatMap_map]
  have htext : textOf (caseOf subject (xs.map lineOf)) =
      textOf (fixed ["  case " ++ subject ++ " in"]) ++ textOf (xs.map lineOf) ++
        textOf (fixed ["  esac"]) := by
    rw [← textOf_append, ← textOf_append]
    rfl
  rw [htext]
  exact render_append_ok (render_append_ok (render_fixed _) hloop) (render_fixed _)

/-- An empty list leaves the statement out, in the script as in the template. -/
theorem render_optionalCaseParts
    (hfind : Template.find? values path = some (.list (xs.map valueOf)))
    (harm : ∀ x ∈ xs, Template.render ((name, valueOf x) :: values) arm = .ok (textOf [lineOf x])) :
    Template.render values (optionalCaseParts subject name path arm) =
      .ok (textOf (optionalCaseOf subject (xs.map lineOf))) := by
  have hcase : Template.render values (caseParts subject name path arm) =
      .ok (textOf (caseOf subject (xs.map lineOf))) := render_caseParts hfind harm
  refine render_singleton ?_
  rw [Part.render, hfind]
  cases xs with
  | nil => rfl
  | cons x xs => exact hcase

end Loops

variable {i : Installer}

theorem values_draft (i : Installer) : i.draft.values =
    [("binfetch_version", .text i.version), ("generated_at", dateValue i.generatedAt),
      ("project_name", .text i.projectName), ("owner", .text i.owner), ("repo", .text i.repo),
      ("repo_url", .text i.repoUrl), ("binary", .text i.binary),
      ("binaries", textsValue i.binaries), ("format", .text i.format),
      ("wrap_in_directory", .truth i.wrapInDirectory), ("archive_name", .text i.archiveName),
      ("checksum_name", .text i.checksumName),
      ("matrix", .record [("supported", textsValue i.supported),
        ("excluded", textsValue i.excluded)]),
      ("adjustments", .record [("format_overrides", armsValue (i.formatOverrides.map Arm.draft)),
        ("replacements", armsValue (i.replacements.map Arm.draft))])] := rfl

theorem render_date :
    Template.render i.draft.values
        [.choice ["generated_at"] [.fixed " on ", .value ["generated_at"]] []] =
      .ok (Line.text (dated i.generatedAt)) := by
  have hfind : Template.find? i.draft.values ["generated_at"] = some (dateValue i.generatedAt) := by
    simp [values_draft, find?_cons, Value.at?]
  refine render_singleton ?_
  rw [Part.render, hfind]
  cases hdate : i.generatedAt with
  | none => rfl
  | some date =>
    rw [hdate] at hfind
    have hpieces : Template.render i.draft.values
        ([.fixed " on ", .value "generated_at"].map Piece.part) =
        .ok (Line.text [.fixed " on ", .value date]) :=
      render_pieces (by simp [Piece.become?, hfind, dateValue])
    cases hempty : date.isEmpty with
    | true =>
      simp only [need, ok_bind, dateValue, Value.holds, dated, hempty]
      rfl
    | false =>
      simp only [need, ok_bind, dateValue, Value.holds, dated, hempty]
      exact hpieces

theorem render_headingParts :
    Template.render i.draft.values headingParts = .ok (textOf (heading i)) := by
  have hversion : Template.render i.draft.values
      ([.fixed "# Code generated by binfetch ", .value "binfetch_version"].map Piece.part) =
        .ok (Line.text [.fixed "# Code generated by binfetch ", .value i.version]) :=
    render_pieces (by simp [Piece.become?, values_draft, find?_cons, Value.at?])
  have hend : Template.render i.draft.values [.fixed ". DO NOT EDIT.\n"] =
      .ok (Line.text [.fixed ". DO NOT EDIT."] ++ ['\n']) := rfl
  have hline := render_append_ok (render_append_ok hversion render_date) hend
  refine (render_append_ok (render_append_ok (render_fixed _) hline) (render_fixed _)).trans ?_
  simp [heading, textOf, Line.text]

theorem render_usage :
    Template.render i.draft.values (partsOf (usage named)) = .ok (textOf (usage i)) := by
  refine render_partsOf ?_
  refine ((((become_fixed _).append ?_).append (become_fixed _)).append ?_).append (become_fixed _)
  all_goals simp [Become, Piece.become?, named, values_draft, find?_cons, Value.at?]

theorem render_settings :
    Template.render i.draft.values (partsOf (settings named)) = .ok (textOf (settings i)) := by
  refine render_partsOf ?_
  simp [Become, settings, Piece.become?, named, values_draft, find?_cons, Value.at?]

theorem render_steps :
    Template.render i.draft.values (partsOf (steps named)) = .ok (textOf (steps i)) := by
  refine render_partsOf ?_
  refine ((((become_fixed _).append ?_).append (become_fixed _)).append ?_).append (become_fixed _)
  all_goals simp [Become, Piece.become?, named, values_draft, find?_cons, Value.at?]

theorem render_toolbox : Template.render i.draft.values (partsOf toolbox) = .ok (textOf toolbox) := by
  refine render_partsOf ?_
  refine .append (.append (.append (.append (.append (.append (.append (.append ?_ ?_) ?_) ?_) ?_)
    ?_) ?_) ?_) ?_
  all_goals exact become_fixed _

theorem render_downloadParts : Template.render i.draft.values downloadParts =
    .ok (textOf (fixed download ++ sourceDirectory i.wrapInDirectory ++ fixed extraction)) := by
  have hfind : Template.find? i.draft.values ["wrap_in_directory"] =
      some (.truth i.wrapInDirectory) := by
    simp [values_draft, find?_cons, Value.at?]
  have hsource : Template.render i.draft.values [.choice ["wrap_in_directory"]
      (partsOf (sourceDirectory true)) (partsOf (sourceDirectory false))] =
        .ok (textOf (sourceDirectory i.wrapInDirectory)) := by
    refine render_singleton ?_
    rw [Part.render, hfind]
    cases i.wrapInDirectory with
    | true => exact render_fixed _
    | false => exact render_fixed _
  rw [textOf_append, textOf_append]
  exact render_append_ok (render_append_ok (render_fixed _) hsource) (render_fixed _)

theorem render_binaryCheck (h : i.binaries ≠ []) :
    Template.render i.draft.values [binaryCheck] = .ok [] := by
  have hfind : Template.find? i.draft.values ["binaries"] = some (textsValue i.binaries) := by
    simp [values_draft, find?_cons, Value.at?]
  refine render_singleton ((render_check hfind).trans (if_pos ?_))
  simpa [textsValue, Value.holds] using h

theorem render_installationParts : Template.render i.draft.values installationParts =
    .ok (textOf ([binaryLoop i.binaries] ++ fixed installation)) := by
  have hfind : Template.find? i.draft.values ["binaries"] = some (textsValue i.binaries) := by
    simp [values_draft, find?_cons, Value.at?]
  have hloop : (Part.each "binary" ["binaries"] [.fixed "\"", .value ["binary"], .fixed "\" "]).render
      i.draft.values = .ok (i.binaries.flatMap fun b =>
        Line.text [.fixed "\"", .value b, .fixed "\" "]) :=
    render_each hfind fun b _ => render_pieces (l := [.fixed "\"", .value "binary", .fixed "\" "]) rfl
  have hstart : Template.render i.draft.values [.fixed "  for binexe in "] =
      .ok (Line.text [.fixed "  for binexe in "]) := rfl
  have hend : Template.render i.draft.values [.fixed "; do\n"] =
      .ok (Line.text [.fixed "; do"] ++ ['\n']) :=
    rfl
  have hline := render_append_ok (render_append_ok hstart (render_singleton hloop)) hend
  refine (render_append_ok hline (render_fixed installation)).trans ?_
  simp [binaryLoop, textOf, Line.text, List.flatMap_assoc]

theorem render_platformArmParts (found p : String) {values : Scope} :
    Template.render (("platform", .text p) :: values) (platformArmParts found) =
      .ok (textOf [platformArm found p]) :=
  render_partsOf rfl

theorem render_platformCheckParts :
    Template.render i.draft.values platformCheckParts = .ok (textOf (platformCheck i)) := by
  have hsupported : Template.find? i.draft.values ["matrix", "supported"] =
      some (textsValue i.supported) := by
    simp [values_draft, find?_cons, Value.at?, Value.member?]
  have hexcluded : Template.find? i.draft.values ["matrix", "excluded"] =
      some (textsValue i.excluded) := by
    simp [values_draft, find?_cons, Value.at?, Value.member?, List.lookup_cons]
  rw [platformCheck, textOf_append, textOf_append, textOf_append]
  exact render_append_ok (render_append_ok (render_append_ok (render_fixed _)
    (render_caseParts hsupported fun p _ => render_platformArmParts "0" p))
    (render_optionalCaseParts hexcluded fun p _ => render_platformArmParts "1" p)) (render_fixed _)

theorem render_assignmentArmParts (name : String) (a : Arm) {values : Scope} :
    Template.render (("arm", a.draft.toValue) :: values) (assignmentArmParts name) =
      .ok (textOf [assignmentArm name a]) := by
  have hpattern : Template.find? (("arm", a.draft.toValue) :: values) ["arm", "pattern"] =
      some (.text a.pattern) := rfl
  have hvalue : Template.find? (("arm", a.draft.toValue) :: values) ["arm", "value"] =
      some (.text a.value) := rfl
  simp only [assignmentArmParts, Template.render, Part.render, hpattern, hvalue, need, ok_bind]
  refine congrArg Except.ok ?_
  simp [textOf, assignmentArm, Line.text, Piece.text, Value.written]

theorem render_adjustmentParts {opening : List String} {subject name : String} {path : List String}
    {arms : List Arm} {values : Scope}
    (hfind : Template.find? values path = some (armsValue (arms.map Arm.draft))) :
    Template.render values (adjustmentParts opening subject name path) =
      .ok (textOf (adjustment opening subject name arms)) := by
  have hitems : armsValue (arms.map Arm.draft) = .list (arms.map fun a => a.draft.toValue) := by
    rw [armsValue, List.map_map]
    rfl
  rw [hitems] at hfind
  rw [adjustment, textOf_append, textOf_append]
  exact render_append_ok (render_append_ok (render_fixed _)
    (render_optionalCaseParts hfind fun a _ => render_assignmentArmParts name a)) (render_fixed _)

theorem render_adjustmentsParts :
    Template.render i.draft.values adjustmentsParts = .ok (textOf (adjustments i)) := by
  have hformats : Template.find? i.draft.values ["adjustments", "format_overrides"] =
      some (armsValue (i.formatOverrides.map Arm.draft)) := by
    simp [values_draft, find?_cons, Value.at?, Value.member?]
  have hreplacements : Template.find? i.draft.values ["adjustments", "replacements"] =
      some (armsValue (i.replacements.map Arm.draft)) := by
    simp [values_draft, find?_cons, Value.at?, Value.member?, List.lookup_cons]
  rw [adjustments, textOf_append, textOf_append]
  exact render_append_ok (render_append_ok (render_adjustmentParts hformats)
    (render_adjustmentParts hreplacements)) (render_adjustmentParts hreplacements)

/-- The template with the values of an installer has the lines of its script, if there is something to
install. -/
theorem render_template (h : i.binaries ≠ []) :
    Template.render i.draft.values template = .ok (textOf (lines i)) := by
  have hopening : Template.render i.draft.values openingParts =
      .ok (textOf (heading i ++ usage i ++ arguments ++
        (fixed download ++ sourceDirectory i.wrapInDirectory ++ fixed extraction))) := by
    rw [textOf_append, textOf_append, textOf_append]
    exact render_append_ok (render_append_ok (render_append_ok render_headingParts render_usage)
      (render_fixed _)) render_downloadParts
  have hclosing : Template.render i.draft.values closingParts = .ok (textOf ([binaryLoop i.binaries] ++
      fixed installation ++ platformCheck i ++ release ++ adjustments i ++ toolbox ++ settings i ++
      steps i)) := by
    rw [textOf_append, textOf_append, textOf_append, textOf_append, textOf_append, textOf_append]
    exact render_append_ok (render_append_ok (render_append_ok (render_append_ok (render_append_ok
      (render_append_ok render_installationParts render_platformCheckParts) (render_fixed _))
      render_adjustmentsParts) render_toolbox) render_settings) render_steps
  have hcheck := render_append_ok (render_binaryCheck h) hclosing
  refine (render_append_ok hopening hcheck).trans ?_
  rw [List.nil_append, ← textOf_append]
  simp only [lines, execution, List.append_assoc]

theorem fill_draft (h : i.binaries ≠ []) : fill i.draft.values = .ok i.script := by
  rw [fill, render_template h]
  rfl

end ReleaseInstaller.Installer
