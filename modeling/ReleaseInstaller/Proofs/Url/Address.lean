import Mathlib.Data.Option.Basic
import ReleaseInstaller.Proofs.Shell.Word
import ReleaseInstaller.Proofs.Text.Split
import ReleaseInstaller.Proofs.Text.Trim
import ReleaseInstaller.Proofs.Text.Utf8
import ReleaseInstaller.Url.Basic

/-! Reading addresses. Plain characters stand for themselves in a host and in a path, but for the case
of letters in a host; whatever follows an address behind a slash is on the same host. -/
namespace ReleaseInstaller.Url
open Text Shell

variable {s host path rest base : List Char} {c : Char} {u : Url}

/-- Letters and digits of ASCII, hyphens, underscores and dots. -/
def isPlain (c : Char) : Bool := c.isAlphanum || c == '-' || c == '_' || c == '.'

theorem isWordChar_of_isPlain (h : isPlain c = true) : isWordChar c = true := by
  unfold isPlain at h
  simp [isWordChar, h]

theorem ne_of_isPlain {d : Char} (h : isPlain c = true) (hd : isPlain d = false) : c ≠ d := by
  rintro rfl
  rw [h] at hd
  contradiction

theorem isControlOrSpace_of_isWordChar (h : isWordChar c = true) : isControlOrSpace c = false := by
  have hbounds := toNat_of_isWordChar h
  unfold isControlOrSpace
  simp only [decide_eq_false_iff_not]
  omega

theorem isControlOrSpace_of_isDropped (h : isDropped c = true) : isControlOrSpace c = true := by
  simp only [isDropped, Bool.or_eq_true, beq_iff_eq] at h
  rcases h with (rfl | rfl) | rfl <;> decide

theorem endsPath_of_isWordChar (h : isWordChar c = true) : endsPath c = false := by
  have hquery : c ≠ '?' := ne_of_isWordChar h (by decide)
  have hfragment : c ≠ '#' := ne_of_isWordChar h (by decide)
  simp [endsPath, hquery, hfragment]

theorem escapedInPath_of_isWordChar (h : isWordChar c = true) : escapedInPath c = false := by
  have hbounds := toNat_of_isWordChar h
  have hne : ∀ d, isWordChar d = false → (c == d) = false :=
    fun d hd => beq_false_of_ne (ne_of_isWordChar h hd)
  unfold escapedInPath escapedAnywhere
  rw [hne '"' (by decide), hne '<' (by decide), hne '>' (by decide), hne '#' (by decide),
    hne (Char.ofNat 96) (by decide), hne '?' (by decide), hne '\x7b' (by decide), hne '\x7d' (by decide)]
  simp only [Bool.or_false, Bool.or_eq_false_iff, decide_eq_false_iff_not]
  omega

theorem isSlash_of_isPlain (h : isPlain c = true) : isSlash c = false := by
  have hslash : c ≠ '/' := ne_of_isPlain h (by decide)
  have hback : c ≠ '\\' := ne_of_isPlain h (by decide)
  simp [isSlash, hslash, hback]

theorem endsHost_of_isPlain (h : isPlain c = true) : endsHost c = false := by
  rw [endsHost, isSlash_of_isPlain h, endsPath_of_isWordChar (isWordChar_of_isPlain h)]
  rfl

section Host

/-- A character of ASCII counts as the small letter, or as itself. -/
theorem asciiForm?_of_lt (h : c.toNat < 128) : asciiForm? c = some [c.toLower] := by
  have hlower : ∀ n < 128, (Char.ofNat n).toLower =
      if 0x41 ≤ n ∧ n < 0x41 + 26 then Char.ofNat ('a'.toNat + (n - 0x41)) else Char.ofNat n := by
    decide +kernel
  have hcase := hlower c.toNat h
  rw [Char.ofNat_toNat] at hcase
  -- Of all runs that have a form in ASCII, only the first one is in ASCII itself.
  have hruns : asciiRuns = (0x41, 'a', 26) :: asciiRuns.tail := rfl
  have hlater : ∀ run ∈ asciiRuns.tail, 128 ≤ run.1 := by decide +kernel
  have hnone : ∀ run ∈ asciiRuns.tail,
      ¬ (decide (run.1 ≤ c.toNat) && decide (c.toNat < run.1 + run.2.2)) = true := by
    intro run hrun
    have hstart := hlater run hrun
    simp only [Bool.and_eq_true, decide_eq_true_eq]
    omega
  rw [asciiForm?, hruns, List.find?_cons, List.find?_eq_none.mpr hnone, hcase]
  split_ifs with hupper
  · simp [hupper]
  · have hout : (decide (0x41 ≤ c.toNat) && decide (c.toNat < 0x41 + 26)) = false := by
      simpa using hupper
    simp only [hout]

theorem asciiDomain?_of_isPlain (h : ∀ c ∈ s, isPlain c = true) :
    asciiDomain? s = some (s.map Char.toLower) := by
  have hmap : s.mapM asciiForm? = some (s.map fun c => [c.toLower]) := by
    induction s with
    | nil => rfl
    | cons c s ih =>
      obtain ⟨hc, hs⟩ := List.forall_mem_cons.mp h
      have hbounds := toNat_of_isWordChar (isWordChar_of_isPlain hc)
      rw [List.mapM_cons, asciiForm?_of_lt (by omega), ih hs]
      rfl
  rw [asciiDomain?, hmap, Option.map_some, ← List.flatMap_def, ← List.map_eq_flatMap]

theorem ofUtf8?_percentDecode_of_isPlain (h : ∀ c ∈ s, isPlain c = true) :
    ofUtf8? (percentDecode s) = some (String.ofList s) := by
  have hpercent : '%' ∉ s := fun hmem => absurd (h '%' hmem) (by decide)
  rw [percentDecode_of_not_mem hpercent, ofUtf8?_flatMap_utf8Bytes]

theorem domain?_of_isPlain (h : ∀ c ∈ u.host, isPlain c = true) :
    u.domain? = some (u.host.map Char.toLower) := by
  rw [domain?, ofUtf8?_percentDecode_of_isPlain h, Option.bind_some, String.toList_ofList]
  exact asciiDomain?_of_isPlain h

theorem isForbidden_of_isPlain (h : isPlain c = true) : isForbidden c = false := by
  have hbounds := toNat_of_isWordChar (isWordChar_of_isPlain h)
  have hsigns : forbiddenSigns.all (fun d => !isPlain d) = true := by decide
  have hsign : forbiddenSigns.contains c = false := by
    rw [← Bool.not_eq_true, List.contains_iff_mem]
    intro hmem
    have hother := List.all_eq_true.mp hsigns c hmem
    simp [h] at hother
  rw [isForbidden, hsign, Bool.or_false, Bool.or_eq_false_iff]
  constructor
  · simp only [decide_eq_false_iff_not]
    omega
  · simp only [beq_eq_false_iff_ne]
    omega

theorem isHost_of_isPlain (h : ∀ c ∈ s, isPlain c = true) : isHost s = true := by
  rw [isHost, ofUtf8?_percentDecode_of_isPlain h, Bool.or_eq_true]
  right
  simp only [Option.any_some, String.toList_ofList, List.all_eq_true, Bool.not_eq_true']
  exact fun c hc => isForbidden_of_isPlain (h c hc)

theorem splitPort_of_isPlain (h : ∀ c ∈ s, isPlain c = true) : splitPort false s = (s, []) := by
  induction s with
  | nil => rfl
  | cons c s ih =>
    obtain ⟨hc, hs⟩ := List.forall_mem_cons.mp h
    have hcolon : c ≠ ':' := ne_of_isPlain hc (by decide)
    have hbracket : (c == '[') = false := beq_false_of_ne (ne_of_isPlain hc (by decide))
    simp [splitPort, hcolon, hbracket, ih hs]

theorem withoutUser_of_isPlain (h : ∀ c ∈ s, isPlain c = true) : withoutUser s = s := by
  have hat : ∀ c ∈ s.reverse, decide (c ≠ '@') = true := by
    intro c hc
    exact decide_eq_true (ne_of_isPlain (h c (List.mem_reverse.mp hc)) (by decide))
  rw [withoutUser, List.takeWhile_eq_self_iff.mpr hat, List.reverse_reverse]

/-- A host of plain characters ends at the first slash. -/
theorem splitHost_of_isPlain (h : ∀ c ∈ host, isPlain c = true) :
    splitHost (host ++ '/' :: rest) = (host, []) := by
  have hends : ∀ c ∈ host, (!endsHost c) = true := by
    intro c hc
    rw [endsHost_of_isPlain (h c hc)]
    rfl
  rw [splitHost, List.takeWhile_append_of_pos hends, List.takeWhile_cons_of_neg (by decide),
    List.append_nil, withoutUser_of_isPlain h, splitPort_of_isPlain h]

end Host

section Path

theorem resolveSegments_of_forall {segments : List (List Char)} (above : List (List Char))
    (hne : segments ≠ [])
    (h : ∀ segment ∈ segments, isAbove segment = false ∧ isHere segment = false) :
    resolveSegments above segments = above.reverse ++ segments := by
  fun_induction resolveSegments above segments with
  | case1 above => contradiction
  | case2 above last habove => simp [(h last (by simp)).1] at habove
  | case3 above last _ hhere => simp [(h last (by simp)).2] at hhere
  | case4 above last _ _ => simp
  | case5 above segment rest _ habove _ => simp [(h segment (by simp)).1] at habove
  | case6 above segment rest _ _ hhere _ => simp [(h segment (by simp)).2] at hhere
  | case7 above segment rest hrest _ _ ih =>
    obtain ⟨-, hlater⟩ := List.forall_mem_cons.mp h
    rw [ih hrest hlater, List.reverse_cons, List.append_assoc]
    rfl

/-- No segment of the path is a step up or in place. -/
def IsStraight (path : List Char) : Prop :=
  ∀ segment ∈ splitAtAll isSlash path, isAbove segment = false ∧ isHere segment = false

theorem noStep_of_isPlain (h : ∀ c ∈ s, isPlain c = true) (hhere : s ≠ ['.'])
    (habove : s ≠ ['.', '.']) : isAbove s = false ∧ isHere s = false := by
  have hpercent : '%' ∉ s := fun hmem => absurd (h '%' hmem) (by decide)
  have hdots : ∀ dot ∈ isHere.dots, '%' ∉ dot → dot = ['.'] := by decide
  constructor
  · rw [← Bool.not_eq_true]
    intro hstep
    simp only [isAbove, List.any_eq_true, beq_iff_eq] at hstep
    obtain ⟨a, ha, b, hb, rfl⟩ := hstep
    rw [List.mem_append, not_or] at hpercent
    rw [hdots a ha hpercent.1, hdots b hb hpercent.2] at habove
    exact habove rfl
  · rw [← Bool.not_eq_true]
    intro hstep
    have hdot : s ∈ isHere.dots := by simpa [isHere] using hstep
    exact hhere (hdots s hdot hpercent)

theorem isStraight_of_noStep (h : ∀ c ∈ s, isSlash c = false)
    (hstep : isAbove s = false ∧ isHere s = false) : IsStraight s := by
  unfold IsStraight
  rw [splitAtAll_of_forall h]
  simpa using hstep

theorem isStraight_append (h : ∀ c ∈ s, isSlash c = false)
    (hstep : isAbove s = false ∧ isHere s = false) (hrest : IsStraight rest) :
    IsStraight (s ++ '/' :: rest) := by
  unfold IsStraight
  rw [splitAtAll_append h (by decide), List.forall_mem_cons]
  exact ⟨hstep, hrest⟩

theorem isStraight_replicate (h : ∀ c ∈ s, isSlash c = false)
    (hstep : isAbove s = false ∧ isHere s = false) (n : Nat) :
    IsStraight (s ++ List.replicate n '/') := by
  induction n generalizing s with
  | zero =>
    rw [List.replicate_zero, List.append_nil]
    exact isStraight_of_noStep h hstep
  | succ n ih =>
    rw [List.replicate_succ]
    exact isStraight_append h hstep (ih (s := []) (by simp) (by decide))

/-- A path of words without steps is left as it is. -/
theorem pathOf_of_isStraight (hword : ∀ c ∈ path, isWordChar c = true) (h : IsStraight path) :
    pathOf ('/' :: path) = '/' :: path := by
  have hslash : ∀ c ∈ path, isSlash c = true → c = '/' := by
    intro c hc hsep
    have hback : c ≠ '\\' := ne_of_isWordChar (hword c hc) (by decide)
    simpa [isSlash, hback] using hsep
  have hescape : ∀ segment ∈ splitAtAll isSlash path,
      '/' :: percentEncode escapedInPath segment = '/' :: segment := by
    intro segment hsegment
    rw [percentEncode_of_forall fun c hc =>
      escapedInPath_of_isWordChar (hword c (mem_of_mem_splitAtAll hsegment c hc))]
  have hne : splitAtAll isSlash path ≠ [] := splitAtAll_ne_nil isSlash path
  unfold pathOf
  show (resolveSegments [] (splitAtAll isSlash path)).flatMap _ = _
  rw [resolveSegments_of_forall [] hne h, List.reverse_nil, List.nil_append,
    List.flatMap_congr hescape, flatMap_splitAtAll hslash]

end Path

section Parse

theorem cleaned_eq_self (h : ∀ c ∈ s, isControlOrSpace c = false) : cleaned s = s := by
  have hstart : s.dropWhile isControlOrSpace = s := by
    cases s with
    | nil => rfl
    | cons c s => exact List.dropWhile_cons_of_neg (by simp [h c])
  have hend : dropEndWhile isControlOrSpace s = s :=
    dropEndWhile_eq_self fun c hc => h c (List.mem_of_getLast? hc)
  have hkept : ∀ c ∈ s, (!isDropped c) = true := by
    intro c hc
    rw [Bool.not_eq_true', ← Bool.not_eq_true]
    intro hdropped
    exact absurd (isControlOrSpace_of_isDropped hdropped) (by simp [h c hc])
  rw [cleaned, hstart, hend, List.filter_eq_self.mpr hkept]

theorem ofRest?_of_isPlain (hne : host ≠ []) (hhost : ∀ c ∈ host, isPlain c = true)
    (hpath : ∀ c ∈ path, isWordChar c = true) :
    ofRest? (host ++ '/' :: path) = some ⟨host, pathOf ('/' :: path), none⟩ := by
  have hends : ∀ c ∈ host, (!endsHost c) = true := by
    intro c hc
    rw [endsHost_of_isPlain (hhost c hc)]
    rfl
  have hdrop : (host ++ '/' :: path).dropWhile (fun c => !endsHost c) = '/' :: path := by
    rw [List.dropWhile_append_of_pos hends]
    exact List.dropWhile_cons_of_neg (by decide)
  have hword : ∀ c ∈ '/' :: path, (!endsPath c) = true := by
    rw [List.forall_mem_cons]
    refine ⟨by decide, fun c hc => ?_⟩
    rw [endsPath_of_isWordChar (hpath c hc)]
    rfl
  have htake : ('/' :: path).takeWhile (fun c => !endsPath c) = '/' :: path :=
    List.takeWhile_eq_self_iff.mpr hword
  have hquery : queryOf? ('/' :: path) = none := by
    rw [queryOf?, List.dropWhile_eq_nil_iff.mpr hword]
  simp only [ofRest?, splitHost_of_isPlain hhost, hdrop, htake, hquery]
  simp [hne, isHost_of_isPlain hhost, isPort]

theorem afterScheme?_eq_some_iff : afterScheme? s = some rest ↔
    ∃ scheme : List Char, scheme.map Char.toLower ∈ schemes ∧ s = scheme ++ ':' :: rest := by
  constructor
  · intro h
    obtain ⟨⟨scheme, after⟩, hsplit, hafter⟩ := Option.bind_eq_some_iff.mp h
    obtain ⟨passed, hguard, hrest⟩ := Option.bind_eq_some_iff.mp hafter
    have hscheme := (Option.guard_eq_some' passed).mp hguard
    obtain rfl := Option.some.inj hrest
    exact ⟨scheme, by simpa using hscheme, (splitOnce?_eq_some_iff.mp hsplit).1⟩
  · rintro ⟨scheme, hscheme, rfl⟩
    -- A colon would be a colon in small letters, too.
    have hcolon : ':' ∉ scheme := by
      intro hmem
      have hlower : ':' ∈ scheme.map Char.toLower := List.mem_map_of_mem hmem
      have hnone : ∀ t ∈ schemes, ':' ∉ t := by decide
      exact hnone _ hscheme hlower
    simp [afterScheme?, splitOnce?_append hcolon, hscheme]

/-- An address of plain characters names the host and the path that are written in it. -/
theorem parse?_of_isPlain {scheme : String} (hscheme : scheme = "https:" ∨ scheme = "http:")
    (hne : host ≠ []) (hhost : ∀ c ∈ host, isPlain c = true)
    (hpath : ∀ c ∈ path, isWordChar c = true) :
    parse? (scheme.toList ++ '/' :: '/' :: (host ++ '/' :: path)) =
      some ⟨host, pathOf ('/' :: path), none⟩ := by
  have hletters : ∀ c ∈ scheme.toList, isWordChar c = true := by
    rw [← List.all_eq_true]
    rcases hscheme with rfl | rfl <;> decide
  have hword : ∀ c ∈ scheme.toList ++ '/' :: '/' :: (host ++ '/' :: path), isWordChar c = true := by
    simp only [List.forall_mem_append, List.forall_mem_cons]
    exact ⟨hletters, by decide, by decide, fun c hc => isWordChar_of_isPlain (hhost c hc), by decide,
      hpath⟩
  have hafter : afterScheme? (scheme.toList ++ '/' :: '/' :: (host ++ '/' :: path)) =
      some ('/' :: '/' :: (host ++ '/' :: path)) := by
    rw [afterScheme?_eq_some_iff]
    rcases hscheme with rfl | rfl
    · exact ⟨"https".toList, by decide, rfl⟩
    · exact ⟨"http".toList, by decide, rfl⟩
  have hslashes : ('/' :: '/' :: (host ++ '/' :: path)).dropWhile isSlash = host ++ '/' :: path := by
    obtain ⟨first, others, rfl⟩ := List.exists_cons_of_ne_nil hne
    have hfirst : isSlash first = false := isSlash_of_isPlain (hhost first (by simp))
    rw [List.dropWhile_cons_of_pos (by decide), List.dropWhile_cons_of_pos (by decide),
      List.cons_append, List.dropWhile_cons_of_neg (by simp [hfirst])]
  rw [parse?, cleaned_eq_self fun c hc => isControlOrSpace_of_isWordChar (hword c hc), hafter]
  show ofRest? (('/' :: '/' :: (host ++ '/' :: path)).dropWhile isSlash) = _
  rw [hslashes]
  exact ofRest?_of_isPlain hne hhost hpath

end Parse

section Below

/-- What follows behind a slash changes nothing about the host. -/
theorem splitHost_append (rest below : List Char) :
    splitHost (rest ++ '/' :: below) = splitHost rest := by
  rw [splitHost, splitHost, takeWhile_append_stop (by decide)]

theorem exists_ofRest?_iff : (∃ u, ofRest? rest = some u) ↔
    (splitHost rest).1 ≠ [] ∧ isHost (splitHost rest).1 = true ∧ isPort (splitHost rest).2 = true := by
  constructor
  · rintro ⟨u, hu⟩
    obtain ⟨passed, hguard, -⟩ := Option.bind_eq_some_iff.mp hu
    have hparts : (!(splitHost rest).1.isEmpty && isHost (splitHost rest).1 &&
        isPort (splitHost rest).2) = true :=
      (Option.guard_eq_some' passed).mp hguard
    simpa [and_assoc] using hparts
  · rintro ⟨hne, hhost, hport⟩
    simp [ofRest?, hne, hhost, hport]

theorem cleaned_append (hne : cleaned base ≠ [])
    (hstop : ∀ c ∈ base.getLast?, isControlOrSpace c = false) (file : List Char) :
    ∃ below, cleaned (base ++ '/' :: file) = cleaned base ++ '/' :: below := by
  have hstart : base.dropWhile isControlOrSpace ≠ [] := by
    intro hnil
    rw [cleaned, hnil] at hne
    contradiction
  have hlast : ∀ c ∈ (base.dropWhile isControlOrSpace).getLast?, isControlOrSpace c = false := by
    obtain ⟨lead, hlead⟩ := List.dropWhile_suffix (l := base) isControlOrSpace
    rw [← hlead, List.getLast?_append_of_ne_nil lead hstart] at hstop
    exact hstop
  refine ⟨(dropEndWhile isControlOrSpace file).filter fun c => !isDropped c, ?_⟩
  rw [cleaned, cleaned, List.dropWhile_append, if_neg (by simpa using hstart),
    dropEndWhile_append_stop (by decide), dropEndWhile_eq_self hlast, List.filter_append,
    List.filter_cons_of_pos (by decide)]

theorem afterScheme?_append (h : afterScheme? s = some rest) (t : List Char) :
    afterScheme? (s ++ t) = some (rest ++ t) := by
  rw [afterScheme?_eq_some_iff] at h ⊢
  obtain ⟨scheme, hscheme, rfl⟩ := h
  exact ⟨scheme, hscheme, List.append_assoc ..⟩

/-- A file below an address that ends in no white space has an address, too. -/
theorem exists_parse?_below (h : parse? base = some u)
    (hstop : ∀ c ∈ base.getLast?, isControlOrSpace c = false) (file : List Char) :
    ∃ v, parse? (base ++ '/' :: file) = some v := by
  obtain ⟨rest, hafter, hrest⟩ := Option.bind_eq_some_iff.mp h
  have hne : cleaned base ≠ [] := by
    intro hnil
    rw [hnil] at hafter
    contradiction
  have hparts := exists_ofRest?_iff.mp ⟨u, hrest⟩
  -- There is a host, so the first slashes end before the slash in front of the file.
  have hslashes : rest.dropWhile isSlash ≠ [] := by
    intro hnil
    rw [hnil] at hparts
    exact hparts.1 rfl
  obtain ⟨below, hbelow⟩ := cleaned_append hne hstop file
  rw [parse?, hbelow, afterScheme?_append hafter]
  show ∃ v, ofRest? ((rest ++ '/' :: below).dropWhile isSlash) = some v
  rw [List.dropWhile_append, if_neg (by simpa using hslashes), exists_ofRest?_iff, splitHost_append]
  exact hparts

end Below

end ReleaseInstaller.Url
