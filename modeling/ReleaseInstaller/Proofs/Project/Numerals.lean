import ReleaseInstaller.Proofs.Project.Conformity

/-! Integers and their digits. Where the reader takes both an integer and a text, the integer may as
well be written as the text of its digits, and nothing else may stand there. -/
namespace ReleaseInstaller
open Json ValueReader Text

namespace Json

/-- An integer of 64 bits with sign, and the text of its decimal digits. -/
def Spells (v v' : Json) : Prop :=
  ∃ n, isSmall n = true ∧ v = integer n ∧ v' = text (toString n)

/-- What may stand where both are taken: a text, or an integer of 64 bits with sign. -/
def IsTextOrSmall : Json → Prop
  | text _ => True
  | integer n => isSmall n = true
  | _ => False

variable {v v' : Json}

theorem textOrInteger?_of_spells (h : Spells v v') : textOrInteger? v = textOrInteger? v' := by
  obtain ⟨n, hn, rfl, rfl⟩ := h
  exact if_pos hn

theorem optional?_of_spells (h : Spells v v') :
    optional? textOrInteger? v = optional? textOrInteger? v' := by
  have hsame := textOrInteger?_of_spells h
  obtain ⟨n, -, rfl, rfl⟩ := h
  exact congrArg (Option.map some) hsame

theorem demands_numeral : Demands textOrInteger? [] IsTextOrSmall := by
  refine demands_here fun v s h => ?_
  cases v with
  | text => trivial
  | integer n =>
    by_contra hn
    exact Option.some_ne_none s (h.symm.trans (if_neg hn))
  | _ => exact absurd h.symm (Option.some_ne_none s)

theorem demands_optional_numeral :
    Demands (optional? textOrInteger?) [] fun v => v ≠ null → v.IsTextOrSmall := by
  refine demands_here fun v o h hv => ?_
  rw [optional?_of_ne_null hv, Option.map_eq_some_iff] at h
  obtain ⟨s, hs, -⟩ := h
  exact demands_numeral v s hs v (.here v)

/-- An integer is written as the text of its digits, or such a text as the integer. -/
def respelledAt (place : List Step) : Change := ⟨place, Relation.SymmGen Spells⟩

theorem overlooks_respelled : Overlooks textOrInteger? [respelledAt []] :=
  overlooks_here textOrInteger?_of_spells

theorem overlooks_optional_respelled :
    Overlooks (optional? textOrInteger?) [respelledAt []] :=
  overlooks_here optional?_of_spells

end Json

/-- A revision of `null` is left out of an object, or put into one. -/
def silencedAt (place : List Step) : Change := ⟨place, Relation.SymmGen (Omits "goarm")⟩

namespace IgnoreRule

theorem read?_of_omits {v v' : Json} (h : Omits "goarm" v v') :
    read? valueReader v = read? valueReader v' := by
  have hrecord : valueReader.record? fields v =
      (valueReader.record? fields v').map (Function.update · "goarm" (some null)) :=
    record?_of_omits h
  rw [read?, read?, hrecord]
  cases hget : valueReader.record? fields v' with
  | none => rfl
  | some get =>
    have habsent := record?_eq_none_of_omits h hget
    simp [habsent, withDefault, optional?]

theorem overlooks_numerals : Overlooks (read? valueReader)
    (silencedAt [] :: Change.inFields [("goarch", [respelledAt []]), ("goarm", [respelledAt []])]) := by
  have hsilenced : Overlooks (read? valueReader) [silencedAt []] := overlooks_here read?_of_omits
  refine overlooks_append.mpr ⟨hsilenced, ?_⟩
  refine Overlooks.fields (fun _ _ => read?_eq_some_iff) ?_
  rintro get get' r hfollows ⟨hos, harch, hrevision⟩
  refine ⟨(hfollows "goos" (by decide)).withDefault ?_ hos,
    (hfollows "goarch" (by decide)).withDefault ?_ harch,
    (hfollows "goarm" (by decide)).withDefault ?_ hrevision⟩
  all_goals simp [overlooks_respelled, overlooks_optional_respelled]

theorem demands_arch : Demands (read? valueReader) [.member "goarch"] IsTextOrSmall := by
  have hfield : "goarch" ∈ fields := by decide
  refine demands_numeral.member hfield fun v r hr => ?_
  obtain ⟨get, hget, -, harch, -⟩ := read?_eq_some_iff.mp hr
  exact ⟨get, hget, _, _, harch⟩

theorem demands_revision :
    Demands (read? valueReader) [.member "goarm"] fun w => w ≠ null → w.IsTextOrSmall := by
  have hfield : "goarm" ∈ fields := by decide
  refine demands_optional_numeral.member hfield fun v r hr => ?_
  obtain ⟨get, hget, -, -, hrevision⟩ := read?_eq_some_iff.mp hr
  exact ⟨get, hget, _, _, hrevision⟩

/-- A rule with `null` for its revision has none. -/
theorem revision_eq_none {v : Json} {r : IgnoreRule} (h : v.Holds [.member "goarm"] null)
    (hr : read? valueReader v = some r) : r.revision = none := by
  obtain ⟨get, hget, -, -, hrevision⟩ := read?_eq_some_iff.mp hr
  cases h with
  | member hmem h =>
    obtain rfl := holds_here.mp h
    obtain ⟨hnodup, rfl⟩ := record?_object_eq_some_iff.mp hget
    have hlookup := (lookup_eq_some_iff_mem_of_known hnodup (by decide)).mpr hmem
    simp only [hlookup, withDefault] at hrevision
    exact (Option.some.inj hrevision).symm

end IgnoreRule

namespace Build

theorem overlooks_numerals : Overlooks (read? valueReader) (Change.inFields
    [("goarch", [respelledAt [.item]]), ("goarm", [respelledAt [.item]]),
      ("ignore", [silencedAt [.item], respelledAt [.item, .member "goarch"],
        respelledAt [.item, .member "goarm"]])]) := by
  refine Overlooks.fields (fun _ _ => read?_eq_some_iff) ?_
  rintro get get' b hfollows ⟨hbinary, hsystems, harchs, hrevisions, hignored⟩
  have hitems := overlooks_respelled.list
  have hrules := IgnoreRule.overlooks_numerals.list
  refine ⟨(hfollows "binary" (by decide)).withDefault ?_ hbinary,
    (hfollows "goos" (by decide)).withDefault ?_ hsystems,
    (hfollows "goarch" (by decide)).withDefault ?_ harchs,
    (hfollows "goarm" (by decide)).withDefault ?_ hrevisions,
    (hfollows "ignore" (by decide)).withDefault ?_ hignored⟩
  all_goals simp
  · exact hitems
  · exact hitems
  · exact hrules

theorem demands_arch : Demands (read? valueReader) [.member "goarch", .item] IsTextOrSmall := by
  have hfield : "goarch" ∈ fields := by decide
  refine demands_numeral.list.member hfield fun v b hb => ?_
  obtain ⟨get, hget, -, -, harchs, -⟩ := read?_eq_some_iff.mp hb
  exact ⟨get, hget, _, _, harchs⟩

theorem demands_revision : Demands (read? valueReader) [.member "goarm", .item] IsTextOrSmall := by
  have hfield : "goarm" ∈ fields := by decide
  refine demands_numeral.list.member hfield fun v b hb => ?_
  obtain ⟨get, hget, -, -, -, hrevisions, -⟩ := read?_eq_some_iff.mp hb
  exact ⟨get, hget, _, _, hrevisions⟩

theorem demands_ignored {place : List Step} {P : Json → Prop}
    (h : Demands (IgnoreRule.read? valueReader) place P) :
    Demands (read? valueReader) (.member "ignore" :: .item :: place) P := by
  have hfield : "ignore" ∈ fields := by decide
  refine h.list.member hfield fun v b hb => ?_
  obtain ⟨get, hget, -, -, -, -, hignored⟩ := read?_eq_some_iff.mp hb
  exact ⟨get, hget, _, _, hignored⟩

end Build

namespace Project

/-- Where a description has ignore rules, and where these have their revisions. -/
def rulePlace : List Step := [.member "builds", .item, .member "ignore", .item]

def rulesRevisionPlace : List Step := rulePlace ++ [.member "goarm"]

theorem overlooks_numerals :
    Overlooks ofJson? (silencedAt rulePlace :: numeralPlaces.map respelledAt) := by
  -- The changes in the order in which the fields of a build have them.
  have h : Overlooks ofJson? (Change.inFields
      [("builds", [respelledAt [.item, .member "goarch", .item],
        respelledAt [.item, .member "goarm", .item], silencedAt [.item, .member "ignore", .item],
        respelledAt [.item, .member "ignore", .item, .member "goarch"],
        respelledAt [.item, .member "ignore", .item, .member "goarm"]])]) := by
    refine Overlooks.fields (fun _ _ => read?_eq_some_iff) ?_
    rintro get get' p hfollows ⟨hname, hrepo, hbuilds, harchive, hchecksum⟩
    have hitems := Build.overlooks_numerals.list
    refine ⟨(hfollows "project_name" (by decide)).withDefault ?_ hname,
      (hfollows "release" (by decide)).withDefault ?_ hrepo,
      (hfollows "builds" (by decide)).withDefault ?_ hbuilds,
      (hfollows "archive" (by decide)).withDefault ?_ harchive,
      (hfollows "checksum" (by decide)).withDefault ?_ hchecksum⟩
    all_goals simp
    exact hitems
  refine h.subset ?_
  simp [numeralPlaces, rulePlace, Change.inFields, Change.below, silencedAt, respelledAt]

theorem demands_builds {place : List Step} {P : Json → Prop}
    (h : Demands (Build.read? valueReader) place P) :
    Demands ofJson? (.member "builds" :: .item :: place) P := by
  have hfield : "builds" ∈ fields := by decide
  refine h.list.member hfield fun v p hp => ?_
  obtain ⟨get, hget, -, -, hbuilds, -, -⟩ := read?_eq_some_iff.mp hp
  exact ⟨get, hget, _, _, hbuilds⟩

theorem demands_numerals : ∀ place ∈ numeralPlaces, Demands ofJson? place fun w =>
    (place = rulesRevisionPlace → w ≠ null) → w.IsTextOrSmall := by
  simp only [numeralPlaces, List.forall_mem_cons]
  refine ⟨?_, ?_, ?_, ?_, List.forall_mem_nil _⟩
  · exact fun v p hp w hw _ => demands_builds Build.demands_arch v p hp w hw
  · exact fun v p hp w hw _ => demands_builds Build.demands_revision v p hp w hw
  · exact fun v p hp w hw _ =>
      demands_builds (Build.demands_ignored IgnoreRule.demands_arch) v p hp w hw
  · exact fun v p hp w hw hnull =>
      demands_builds (Build.demands_ignored IgnoreRule.demands_revision) v p hp w hw (hnull rfl)

variable {v v' : Json}

/-- An integer is written as the text of its digits, where the reader takes both. -/
def IsRespelled (v v' : Json) : Prop := ∃ place ∈ numeralPlaces, ChangedAt Spells place v v'

theorem ofJson?_of_isRespelled (h : IsRespelled v v') : ofJson? v' = ofJson? v := by
  obtain ⟨place, hplace, hchange⟩ := h
  have hmem : respelledAt place ∈ silencedAt rulePlace :: numeralPlaces.map respelledAt :=
    List.mem_cons_of_mem _ (List.mem_map_of_mem hplace)
  have hchange := hchange.mono fun _ _ => Relation.SymmGen.of_rel
  exact overlooks_numerals.eq_of_symmetric hmem Relation.SymmGen.symm hchange

theorem ofJson?_of_omits (h : ChangedAt (Omits "goarm") rulePlace v v') :
    ofJson? v' = ofJson? v := by
  have hchange := h.mono fun _ _ => Relation.SymmGen.of_rel
  exact overlooks_numerals.eq_of_symmetric List.mem_cons_self Relation.SymmGen.symm hchange

/-- An integer of 64 bits may be written as the text of its digits wherever the reader takes both, and
makes no difference then. Besides these two nothing may stand there, but for `null` as the revision of
a rule, which then has none, as if nothing were said. -/
theorem ofJson?_numerals (v : Json) :
    (∀ v', Relation.ReflTransGen IsRespelled v v' → ofJson? v' = ofJson? v) ∧
      (∀ place ∈ numeralPlaces, ∀ w, v.Holds place w → ¬ w.IsTextOrSmall →
        (place = rulesRevisionPlace → w ≠ null) → ofJson? v = none) ∧
      (∀ v', ChangedAt (Omits "goarm") rulePlace v v' → ofJson? v' = ofJson? v) ∧
      ∀ rule, v.Holds rulePlace rule → rule.Holds [.member "goarm"] null →
        ∀ r, IgnoreRule.read? valueReader rule = some r → r.revision = none := by
  refine ⟨fun v' hsteps => ?_, fun place hplace w hw hnot hnull => ?_, fun v' => ofJson?_of_omits,
    fun rule _ hrule r => IgnoreRule.revision_eq_none hrule⟩
  · induction hsteps with
    | refl => rfl
    | tail _ hstep ih => exact (ofJson?_of_isRespelled hstep).trans ih
  · refine Option.eq_none_iff_forall_ne_some.mpr fun p hp => hnot ?_
    exact demands_numerals place hplace v p hp w hw hnull

/-- A description with the greatest number of 64 bits as an architecture and the least one as a revision,
and with a rule for all revisions. -/
def numberedDescription : Json :=
  object [("builds", array [object [("goarch", array [integer 9223372036854775807]),
    ("goarm", array [integer (-9223372036854775808)]),
    ("ignore", array [object [("goarch", integer 386), ("goarm", null)]])]])]

/-- The description with texts for the numbers of the build. -/
def spelledDescription : Json :=
  object [("builds", array [object [("goarch", array [text "9223372036854775807"]),
    ("goarm", array [text "-9223372036854775808"]),
    ("ignore", array [object [("goarch", integer 386), ("goarm", null)]])]])]

/-- At both ends of the range a number and its digits are the same, and just beyond them neither the
number of an architecture nor that of a rule is read. -/
theorem ofJson?_numerals_at_ends :
    ofJson? spelledDescription = ofJson? numberedDescription ∧
      ofJson? numberedDescription = some { (default : Project) with
        builds := [⟨"", [], ["9223372036854775807"], ["-9223372036854775808"],
          [⟨"", "386", none⟩]⟩] } ∧
      ofJson? (object [("builds", array [object [("goarch",
        array [integer 9223372036854775808])]])]) = none ∧
      ofJson? (object [("builds", array [object [("ignore",
        array [object [("goarm", integer (-9223372036854775809))]])]])]) = none ∧
      ofJson? (object [("builds", array [object [("goarm", array [decimal 65 (-1)])]])]) = none := by
  have harch : IsRespelled numberedDescription (object [("builds", array [object
      [("goarch", array [text "9223372036854775807"]),
        ("goarm", array [integer (-9223372036854775808)]),
        ("ignore", array [object [("goarch", integer 386), ("goarm", null)]])]])]) :=
    ⟨_, List.mem_cons_self, .member [] [] (.item [] [] (.member [] _ (.item [] []
      (.here ⟨9223372036854775807, rfl, rfl, rfl⟩))))⟩
  have hrevision : IsRespelled (object [("builds", array [object
      [("goarch", array [text "9223372036854775807"]),
        ("goarm", array [integer (-9223372036854775808)]),
        ("ignore", array [object [("goarch", integer 386), ("goarm", null)]])]])])
      spelledDescription :=
    ⟨_, List.mem_cons_of_mem _ List.mem_cons_self, .member [] [] (.item [] []
      (.member [("goarch", array [text "9223372036854775807"])] _ (.item [] []
        (.here ⟨-9223372036854775808, rfl, rfl, rfl⟩))))⟩
  have hrevisionPlace : rulesRevisionPlace ∈ numeralPlaces := by decide
  have hgreater : isSmall 9223372036854775808 ≠ true := by decide
  have hless : isSmall (-9223372036854775809) ≠ true := by decide
  refine ⟨(ofJson?_numerals _).1 _ ((Relation.ReflTransGen.single harch).tail hrevision), by decide,
    ?_, ?_, ?_⟩
  · refine (ofJson?_numerals _).2.1 _ List.mem_cons_self (integer 9223372036854775808) ?_
      hgreater nofun
    simp [holds_member, holds_item, holds_here]
  · refine (ofJson?_numerals _).2.1 _ hrevisionPlace (integer (-9223372036854775809)) ?_
      hless nofun
    simp [rulesRevisionPlace, rulePlace, holds_member, holds_item, holds_here]
  · refine (ofJson?_numerals _).2.1 _ (List.mem_cons_of_mem _ List.mem_cons_self) (decimal 65 (-1)) ?_
      nofun nofun
    simp [holds_member, holds_item, holds_here]

end Project

end ReleaseInstaller
