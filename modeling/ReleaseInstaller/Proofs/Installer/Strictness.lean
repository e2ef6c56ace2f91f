import ReleaseInstaller.Proofs.Installer.Insertion
import ReleaseInstaller.Proofs.Installer.Rendering

/-! What the template of installers does with values some of which are missing. Whatever it mentions it
asks for, so that nothing can be missing from a script. -/
namespace ReleaseInstaller.Installer
open Template

/-- The forms of the values of an arm. -/
def armForm : Form := .record [("pattern", .text), ("value", .text)]

/-- The forms of the values of an installer. -/
def valueForms : List (String × Form) :=
  [("binfetch_version", .text), ("generated_at", .optionalText), ("project_name", .text),
    ("owner", .text), ("repo", .text), ("repo_url", .text), ("binary", .text),
    ("binaries", .list .text), ("format", .text), ("wrap_in_directory", .truth),
    ("archive_name", .text), ("checksum_name", .text),
    ("matrix", .record [("supported", .list .text), ("excluded", .list .text)]),
    ("adjustments", .record [("format_overrides", .list armForm),
      ("replacements", .list armForm)])]

section Lines
variable {forms : List (String × Form)} {values : Scope}

theorem areStrict_pieces (l : Line) : areStrict forms (l.map Piece.part) = true := by
  induction l with
  | nil => rfl
  | cons p l ih => cases p <;> exact ih

theorem areStrict_partsOf (ls : List Line) : areStrict forms (partsOf ls) = true := by
  induction ls with
  | nil => rfl
  | cons l ls ih =>
    have hline : areStrict forms (l.map Piece.part ++ [.fixed "\n"]) = true := by
      rw [areStrict_append, areStrict_pieces]
      rfl
    exact areStrict_append.trans (Bool.and_eq_true_iff.mpr ⟨hline, ih⟩)

theorem given_pieces {l : Line} :
    Given values (l.map Piece.part) ↔ ∀ name ∈ l.values, Has values [name] := by
  induction l with
  | nil => exact iff_of_true trivial nofun
  | cons p l ih =>
    cases p with
    | fixed s => exact (and_iff_right trivial).trans ih
    | value name =>
      have hvalues : Line.values (.value name :: l) = name :: Line.values l := rfl
      rw [hvalues, List.forall_mem_cons, ← ih]
      rfl

/-- Lines mention their values. -/
theorem given_partsOf {ls : List Line} :
    Given values (partsOf ls) ↔ ∀ name ∈ ls.flatMap Line.values, Has values [name] := by
  induction ls with
  | nil => exact iff_of_true trivial nofun
  | cons l ls ih =>
    rw [List.flatMap_cons, List.forall_mem_append, ← ih, ← given_pieces]
    refine given_append.trans (and_congr_left fun _ => given_append.trans (and_iff_left ?_))
    exact ⟨trivial, trivial⟩

end Lines

theorem areStrict_openingParts : areStrict valueForms openingParts = true := by decide

theorem areStrict_closingParts : areStrict valueForms closingParts = true := by
  have hinstallation : areStrict valueForms installationParts = true := by decide
  have hplatforms : areStrict valueForms platformCheckParts = true := by decide
  have hadjustments : areStrict valueForms adjustmentsParts = true := by decide
  simp only [closingParts, areStrict_append, areStrict_partsOf, hinstallation, hplatforms,
    hadjustments, Bool.and_true]

/-- What the template asks for before it comes to the check of the binaries. -/
def askedFirst : List String :=
  ["binfetch_version", "generated_at", "owner", "repo", "repo_url", "wrap_in_directory"]

variable {values : Scope}

theorem given_openingParts :
    Given values openingParts ↔ ∀ name ∈ askedFirst, Has values [name] := by
  have husage : (usage named).flatMap Line.values = ["owner", "repo", "repo_url"] := rfl
  have harguments : arguments.flatMap Line.values = [] := flatMap_values_fixed _
  simp [openingParts, headingParts, downloadParts, given_append, given_partsOf, husage, harguments,
    flatMap_values_fixed, askedFirst, sourceDirectory, and_assoc]

/-- There is a list of arms, each with both of its values. -/
def HasArms (values : Scope) (path : List String) : Prop :=
  Has values path ∧ ∀ arms, Template.find? values path = some (.list arms) → ∀ arm ∈ arms,
    (∃ v, arm.at? ["pattern"] = some v) ∧ ∃ v, arm.at? ["value"] = some v

/-- Everything is there that an installer is made of, down to the values of each arm. -/
@[mk_iff]
structure IsComplete (values : Scope) : Prop where
  members : ∀ path ∈ [["binfetch_version"], ["generated_at"], ["project_name"], ["owner"], ["repo"],
    ["repo_url"], ["binary"], ["binaries"], ["format"], ["wrap_in_directory"], ["archive_name"],
    ["checksum_name"], ["matrix", "supported"], ["matrix", "excluded"]], Has values path
  arms : ∀ path ∈ [["adjustments", "format_overrides"], ["adjustments", "replacements"]],
    HasArms values path

section Given
variable (hfits : (Form.record valueForms).Fits (.record values))
include hfits

theorem given_installationParts : Given values installationParts ↔ Has values ["binaries"] := by
  have hform : (Form.record valueForms).at? ["binaries"] = some (.list .text) := rfl
  simp [installationParts, given_partsOf, flatMap_values_fixed, Part.given_each hfits hform, Value.at?]

theorem given_platformCheckParts : Given values platformCheckParts ↔
    Has values ["matrix", "supported"] ∧ Has values ["matrix", "excluded"] := by
  have hsupported : (Form.record valueForms).at? ["matrix", "supported"] = some (.list .text) := rfl
  have hexcluded : (Form.record valueForms).at? ["matrix", "excluded"] = some (.list .text) := rfl
  simp [platformCheckParts, caseParts, optionalCaseParts, given_append, given_partsOf,
    flatMap_values_fixed, platformArmParts, platformArm, Line.values, Value.at?,
    Part.given_each hfits hsupported, Part.given_each hfits hexcluded]

theorem given_adjustmentParts {opening : List String} {subject name : String}
    {path : List String} (hform : (Form.record valueForms).at? path = some (.list armForm)) :
    Given values (adjustmentParts opening subject name path) ↔ HasArms values path := by
  simp [adjustmentParts, caseParts, optionalCaseParts, given_append, given_partsOf,
    flatMap_values_fixed, assignmentArmParts, Part.given_each hfits hform, HasArms]

theorem given_closingParts : Given values closingParts ↔
    Has values ["binaries"] ∧ (Has values ["matrix", "supported"] ∧ Has values ["matrix", "excluded"]) ∧
    (HasArms values ["adjustments", "format_overrides"] ∧
      HasArms values ["adjustments", "replacements"]) ∧
    (∀ name ∈ ["project_name", "owner", "repo", "binary", "format"], Has values [name]) ∧
    ∀ name ∈ ["archive_name", "checksum_name"], Has values [name] := by
  have hformats : (Form.record valueForms).at? ["adjustments", "format_overrides"] =
      some (.list armForm) := rfl
  have hreplacements : (Form.record valueForms).at? ["adjustments", "replacements"] =
      some (.list armForm) := rfl
  have hrelease : release.flatMap Line.values = [] := flatMap_values_fixed _
  have htoolbox : toolbox.flatMap Line.values = [] := flatMap_values_toolbox
  have hsettings : (settings named).flatMap Line.values =
      ["project_name", "owner", "repo", "binary", "format"] := rfl
  have hsteps : (steps named).flatMap Line.values = ["archive_name", "checksum_name"] := rfl
  have hadjustments : Given values adjustmentsParts ↔
      HasArms values ["adjustments", "format_overrides"] ∧
        HasArms values ["adjustments", "replacements"] := by
    rw [adjustmentsParts, given_append, given_append, given_adjustmentParts hfits hformats,
      given_adjustmentParts hfits hreplacements, given_adjustmentParts hfits hreplacements, and_assoc,
      and_self]
  simp only [closingParts, given_append, given_installationParts hfits, hadjustments,
    given_platformCheckParts hfits, given_partsOf, hrelease, htoolbox, hsettings, hsteps, and_assoc]
  simp

/-- The template mentions everything that an installer is made of. -/
theorem given_template_iff : Given values template ↔ IsComplete values := by
  rw [template, given_append, given_cons, given_openingParts, given_closingParts hfits,
    isComplete_iff]
  simp only [binaryCheck, given_choice, given_cons, given_nil, given_refusal, askedFirst,
    List.forall_mem_cons, List.not_mem_nil, false_implies, implies_true, and_true]
  tauto

theorem exists_blank_binaries_iff :
    (∃ v, Template.find? values ["binaries"] = some v ∧ v.holds = false) ↔
      Template.find? values ["binaries"] = some (.list []) := by
  have hform : (Form.record valueForms).at? ["binaries"] = some (.list .text) := rfl
  constructor
  · rintro ⟨v, hfind, hblank⟩
    cases hfits.at? hform hfind with
    | @list _ items _ =>
      have hnil : items = [] := by simpa [Value.holds] using hblank
      rw [hfind, hnil]
  · intro hfind
    exact ⟨_, hfind, rfl⟩

end Given

section Drafts
variable {forms : List (String × Form)} {f : Form} {name : String}

theorem fits_memberOf {α : Type} {valueOf : α → Value} {o : Option α}
    (hform : forms.lookup name = some f) (h : ∀ x, f.Fits (valueOf x)) :
    ∀ m ∈ memberOf name valueOf o, ∀ g, forms.lookup m.1 = some g → g.Fits m.2 := by
  intro m hm g hg
  obtain ⟨x, -, rfl⟩ := Option.map_eq_some_iff.mp (Option.mem_toList.mp hm)
  obtain rfl := Option.some.inj (hform.symm.trans hg)
  exact h x

theorem fits_dateValue (date : Option String) : Form.optionalText.Fits (dateValue date) := by
  cases date with
  | none => exact .noText
  | some date => exact .someText date

theorem fits_textsValue (texts : List String) : (Form.list .text).Fits (textsValue texts) :=
  .list (List.forall_mem_map.mpr fun s _ => .text s)

theorem fits_armsValue (arms : List ArmDraft) : (Form.list armForm).Fits (armsValue arms) := by
  refine .list (List.forall_mem_map.mpr fun a _ => Form.fits_record ?_)
  exact List.forall_mem_append.mpr ⟨fits_memberOf rfl .text, fits_memberOf rfl .text⟩

/-- All values of a draft have their forms. -/
theorem fits_values (d : Draft) : (Form.record valueForms).Fits (.record d.values) := by
  have hmatrix : (Form.record [("supported", .list .text), ("excluded", .list .text)]).Fits
      (.record (memberOf "supported" textsValue d.supported ++
        memberOf "excluded" textsValue d.excluded)) :=
    Form.fits_record (List.forall_mem_append.mpr
      ⟨fits_memberOf rfl fits_textsValue, fits_memberOf rfl fits_textsValue⟩)
  have hadjustments : (Form.record [("format_overrides", .list armForm),
      ("replacements", .list armForm)]).Fits (.record
        (memberOf "format_overrides" armsValue d.formatOverrides ++
          memberOf "replacements" armsValue d.replacements)) :=
    Form.fits_record (List.forall_mem_append.mpr
      ⟨fits_memberOf rfl fits_armsValue, fits_memberOf rfl fits_armsValue⟩)
  refine Form.fits_record ?_
  simp only [Draft.values, List.forall_mem_append, List.forall_mem_cons, and_assoc]
  refine ⟨fits_memberOf rfl .text, fits_memberOf rfl fits_dateValue, fits_memberOf rfl .text,
    fits_memberOf rfl .text, fits_memberOf rfl .text, fits_memberOf rfl .text,
    fits_memberOf rfl .text, fits_memberOf rfl fits_textsValue, fits_memberOf rfl .text,
    fits_memberOf rfl .truth, fits_memberOf rfl .text, fits_memberOf rfl .text, ?_, ?_, nofun⟩
  · rintro f hf
    obtain rfl := Option.some.inj hf
    exact hmatrix
  · rintro f hf
    obtain rfl := Option.some.inj hf
    exact hadjustments

end Drafts

/-- The template gives a script exactly if everything is there that it mentions, and something to
install. It complains that there is nothing to install exactly if all is there that it asks for before.
In all other cases a value is missing. -/
theorem renderValues?_exact {values : Scope}
    (hfits : (Form.record valueForms).Fits (.record values)) :
    (Given values template ↔ IsComplete values) ∧
    (Given values openingParts ↔ ∀ name ∈ askedFirst, Has values [name]) ∧
    ((∃ script, Bundle.renderValues? templateKey values = some (.ok script)) ↔
      IsComplete values ∧ Template.find? values ["binaries"] ≠ some (.list [])) ∧
    (Bundle.renderValues? templateKey values = some (.error (.refused noBinaries)) ↔
      Template.find? values ["binaries"] = some (.list []) ∧
        ∀ name ∈ askedFirst, Has values [name]) ∧
    (Bundle.renderValues? templateKey values = some (.error .missing) ↔
      ¬ (IsComplete values ∧ Template.find? values ["binaries"] ≠ some (.list [])) ∧
      ¬ (Template.find? values ["binaries"] = some (.list []) ∧
        ∀ name ∈ askedFirst, Has values [name])) := by
  have hblank := exists_blank_binaries_iff hfits
  have hcomplete := given_template_iff hfits
  have hparts : template = openingParts ++ .choice ["binaries"] [] [.refusal noBinaries] ::
      closingParts := rfl
  rw [renderValues?_templateKey]
  refine ⟨hcomplete, given_openingParts, ?_⟩
  rcases render_checked hparts areStrict_openingParts areStrict_closingParts hfits with
    ⟨⟨text, htext⟩, hgiven, v, hfind, hfilled⟩ | ⟨hrefused, hfirst, hnone⟩ | ⟨hmissing, hnot, hnot'⟩
  · have hscript : fill values = .ok (String.ofList (Text.unixNewlines text)) := by
      rw [fill, htext]
      rfl
    have hbinaries : Template.find? values ["binaries"] ≠ some (.list []) := fun hnil => by
      obtain rfl := Option.some.inj (hfind.symm.trans hnil)
      exact absurd hfilled Bool.false_ne_true
    have hthere := hcomplete.mp hgiven
    simp [hscript, hthere, hbinaries]
  · have hscript : fill values = .error (.refused noBinaries) := by
      rw [fill, hrefused]
      rfl
    have hbinaries := hblank.mp hnone
    have hasked := given_openingParts.mp hfirst
    simp [hscript, hbinaries, iff_true_intro hasked]
  · have hscript : fill values = .error .missing := by
      rw [fill, hmissing]
      rfl
    rw [hcomplete] at hnot
    rw [given_openingParts, hblank] at hnot'
    have hincomplete : ¬ (IsComplete values ∧
        Template.find? values ["binaries"] ≠ some (.list [])) := fun h => hnot h.1
    rw [and_comm] at hnot'
    simp only [hscript, hincomplete, hnot', not_false_eq_true, and_self]
    simp

/-- Without binaries, and without a value that is asked for only later. -/
def emptyDraft : Draft := { named.draft with binaries := some [], checksumName := none }

/-- With an arm that has no value. -/
def halfDraft : Draft := { named.draft with formatOverrides := some [⟨some "linux", none⟩] }

theorem renderValues?_exact_drafts :
    Bundle.renderValues? templateKey emptyDraft.values = some (.error (.refused noBinaries)) ∧
      Bundle.renderValues? templateKey halfDraft.values = some (.error .missing) ∧
      IsComplete named.draft.values := by
  have hempty : Template.find? emptyDraft.values ["binaries"] = some (.list []) := by
    simp [emptyDraft, named, draft, Draft.values, memberOf, find?_cons, Value.at?, textsValue]
  have hasked : ∀ name ∈ askedFirst, Has emptyDraft.values [name] := by
    simp [askedFirst, Has, emptyDraft, named, draft, Draft.values, memberOf, find?_cons, Value.at?]
  have hhalf : Template.find? halfDraft.values ["adjustments", "format_overrides"] =
      some (.list [.record [("pattern", .text "linux")]]) := by
    simp [halfDraft, named, draft, Draft.values, memberOf, find?_cons, Value.at?, Value.member?,
      armsValue, ArmDraft.toValue]
  have hincomplete : ¬ IsComplete halfDraft.values := fun h => by
    obtain ⟨-, v, hv⟩ := (h.arms _ List.mem_cons_self).2 _ hhalf _ List.mem_cons_self
    exact absurd hv.symm (Option.some_ne_none v)
  have hbinaries : Template.find? halfDraft.values ["binaries"] ≠ some (.list []) := by
    simp [halfDraft, named, draft, Draft.values, memberOf, find?_cons, Value.at?, textsValue]
  have hnamed : Bundle.renderValues? templateKey named.draft.values = some (.ok named.script) := by
    rw [renderValues?_templateKey, fill_draft (by decide)]
  refine ⟨?_, ?_, ?_⟩
  · exact (renderValues?_exact (fits_values emptyDraft)).2.2.2.1.mpr ⟨hempty, hasked⟩
  · exact (renderValues?_exact (fits_values halfDraft)).2.2.2.2.mpr
      ⟨fun h => hincomplete h.1, fun h => hbinaries h.1⟩
  · exact ((renderValues?_exact (fits_values named.draft)).2.2.1.mp ⟨_, hnamed⟩).1

end ReleaseInstaller.Installer
