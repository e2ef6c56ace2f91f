import ReleaseInstaller.Proofs.Repo.Path
import ReleaseInstaller.Proofs.Url.Address

/-! Addresses of repositories. What is taken off an address depends on its form and its host; on GitHub
every spelling is read as the repository that it names. -/
namespace ReleaseInstaller.Repo
open Text Shell Url

/-- How an address says on which host the repository is. -/
inductive AddressForm where
  | https | http | plain | ssh
  deriving DecidableEq, Repr

namespace AddressForm

/-- What stands in front of the owner. -/
def lead (host : String) : AddressForm → String
  | https => "https://" ++ host ++ "/"
  | http => "http://" ++ host ++ "/"
  | plain => host ++ "/"
  | ssh => "git@" ++ host ++ ":"

def isWeb : AddressForm → Bool
  | https | http => true
  | plain | ssh => false

end AddressForm

variable {r : Repo} {host owner name : String} {rest : List Char} {c : Char}

/-- Letters and digits of ASCII, and hyphens. -/
def isLabelChar (c : Char) : Bool := c.isAlphanum || c == '-'

/-- The form of the owners on GitHub, and of many names. -/
def isLabel (s : String) : Bool := !s.isEmpty && s.toList.all isLabelChar

/-- The form of the names of hosts. -/
def isHostName (s : String) : Bool := !s.isEmpty && s.toList.all isPlain

/-- A repository whose parts, if they are there, are made of the characters that GitHub allows, whose
name is no step in a path and has no ending that is left out. -/
structure IsRegular (r : Repo) : Prop where
  owner : ∀ c ∈ r.owner.toList, isLabelChar c = true
  name : ∀ c ∈ r.name.toList, isPlain c = true
  ne_here : r.name ≠ "."
  ne_above : r.name ≠ ".."
  no_tail : ¬ ".git".toList <:+ r.name.toList

theorem isPlain_of_isLabelChar (h : isLabelChar c = true) : isPlain c = true := by
  unfold isLabelChar at h
  simp [isPlain, h]

theorem isLabel_iff {s : String} :
    isLabel s = true ↔ s ≠ "" ∧ ∀ c ∈ s.toList, isLabelChar c = true := by
  simp [isLabel, List.all_eq_true]

theorem isHostName_iff {s : String} :
    isHostName s = true ↔ s ≠ "" ∧ ∀ c ∈ s.toList, isPlain c = true := by
  simp [isHostName, List.all_eq_true]

theorem noDot_of_isLabelChar {s : List Char} (h : ∀ c ∈ s, isLabelChar c = true) : '.' ∉ s :=
  fun hdot => absurd (h '.' hdot) (by decide)

namespace IsRegular

theorem of_isLabel (howner : isLabel owner = true) (hname : isLabel name = true) :
    IsRegular ⟨owner, name⟩ := by
  have hletters := (isLabel_iff.mp hname).2
  have hdot : '.' ∉ name.toList := noDot_of_isLabelChar hletters
  refine ⟨(isLabel_iff.mp howner).2, fun c hc => isPlain_of_isLabelChar (hletters c hc), ?_, ?_, ?_⟩
  · rintro rfl
    exact hdot (by decide)
  · rintro rfl
    exact hdot (by decide)
  · intro htail
    exact hdot (htail.mem (by decide))

theorem isPlain_owner (h : r.IsRegular) : ∀ c ∈ r.owner.toList, isPlain c = true :=
  fun c hc => isPlain_of_isLabelChar (h.owner c hc)

theorem noSlash_name (h : r.IsRegular) : '/' ∉ r.name.toList :=
  fun hslash => absurd (h.name '/' hslash) (by decide)

/-- Nothing that follows the host of an address means anything to a shell. -/
theorem isWordChar_of_mem (h : r.IsRegular) (e : Ending) :
    ∀ c ∈ r.display.toList ++ e.text.toList, isWordChar c = true := by
  have htail : ∀ c ∈ e.tail.toList, isWordChar c = true := by
    rw [← List.all_eq_true, Ending.tail]
    split <;> decide
  have hslashes : ∀ c ∈ (slashes e.slashes).toList, isWordChar c = true :=
    fun c hc => eq_of_beq (forall_mem_slashes _ c hc) ▸ by decide
  simp only [toList_display, Ending.text, String.toList_append, List.forall_mem_append,
    List.forall_mem_cons]
  exact ⟨⟨fun c hc => isWordChar_of_isPlain (h.isPlain_owner c hc), by decide,
    fun c hc => isWordChar_of_isPlain (h.name c hc)⟩, htail, hslashes⟩

end IsRegular

theorem toList_toLower (s : String) : s.toLower.toList = s.toList.map Char.toLower :=
  String.toList_map

theorem toLower_github : "github.com".toLower = "github.com" := by
  rw [← String.toList_inj, toList_toLower]
  decide

section Host
variable (hhost : ∀ c ∈ host.toList, isPlain c = true)
include hhost

theorem pathOf?_web (hne : host ≠ "") (hrest : ∀ c ∈ rest, isWordChar c = true) {scheme : String}
    (hscheme : scheme = "https:" ∨ scheme = "http:") :
    pathOf? (scheme.toList ++ '/' :: '/' :: (host.toList ++ '/' :: rest)) =
      if host.toLower = "github.com" then some (pathOf ('/' :: rest)) else none := by
  have hweb : IsWeb (scheme.toList ++ '/' :: '/' :: (host.toList ++ '/' :: rest)) := by
    rcases hscheme with rfl | rfl
    · exact .inl ⟨host.toList ++ '/' :: rest, by simp⟩
    · exact .inr ⟨host.toList ++ '/' :: rest, by simp⟩
  have hnil : host.toList ≠ [] := by simpa using hne
  rw [pathOf?_of_isWeb hweb, pathOfUrl?, parse?_of_isPlain hscheme hnil hhost hrest,
    Option.bind_eq_bind, Option.bind_some, domain?_of_isPlain hhost, ← toList_toLower]
  by_cases hgithub : host.toLower = "github.com"
  · simp [hgithub]
  · have hdomain : host.toLower.toList ≠ "github.com".toList := fun h => hgithub (String.toList_inj.mp h)
    rw [if_neg hgithub]
    simpa using hdomain

/-- A name of a host is no beginning of an address. -/
theorem pathOf?_plain (rest : List Char) : pathOf? (host.toList ++ '/' :: rest) =
    some (if host = "github.com" then rest else host.toList ++ '/' :: rest) := by
  have hno : ∀ d, isPlain d = false → d ∉ host.toList := by
    intro d hd hmem
    rw [hhost d hmem] at hd
    contradiction
  have hslash : '/' ∉ host.toList := hno '/' (by decide)
  -- The first slash ends the host, and behind a scheme it would have to follow a colon.
  have hscheme : ∀ scheme : List Char, '/' ∉ scheme → ':' ∈ scheme →
      ¬ scheme ++ ['/', '/'] <+: host.toList ++ '/' :: rest := by
    intro scheme hnone hcolon hlead
    have hfirst : scheme ++ ['/'] <+: host.toList ++ '/' :: rest :=
      List.IsPrefix.trans ⟨['/'], by simp⟩ hlead
    rw [prefix_snoc_iff hnone hslash] at hfirst
    exact hno ':' (by decide) (hfirst ▸ hcolon)
  have hweb : ¬ IsWeb (host.toList ++ '/' :: rest) := by
    rw [IsWeb, not_or]
    exact ⟨hscheme "https:".toList (by decide) (by decide),
      hscheme "http:".toList (by decide) (by decide)⟩
  have hssh : ¬ "git@github.com:".toList <+: host.toList ++ '/' :: rest := by
    rw [prefix_append_cons_iff (by decide)]
    intro hlead
    exact hno ':' (by decide) (hlead.mem (by decide))
  have hgithub : "github.com/".toList <+: host.toList ++ '/' :: rest ↔ host = "github.com" := by
    have hhost : "github.com/".toList = "github.com".toList ++ ['/'] := by decide
    rw [hhost, prefix_snoc_iff (by decide) hslash, String.toList_inj, eq_comm]
  by_cases hself : host = "github.com"
  · have hrest : afterLead? "github.com/" (host.toList ++ '/' :: rest) = some rest := by
      rw [afterLead?_eq_some_iff, hself]
      simp
    rw [pathOf?_of_not_isWeb hweb, afterLead?_eq_none_iff.mpr hssh, hrest, if_pos hself]
    rfl
  · rw [if_neg hself, pathOf?_eq_self_iff hweb, IsHosted, not_or, hgithub]
    exact ⟨hssh, hself⟩

theorem pathOf?_ssh : pathOf? ("git@".toList ++ host.toList ++ ':' :: rest) =
    some (if host = "github.com" then rest else "git@".toList ++ host.toList ++ ':' :: rest) := by
  have hcolon : ':' ∉ host.toList := fun hmem => absurd (hhost ':' hmem) (by decide)
  have hweb : ¬ IsWeb ("git@".toList ++ host.toList ++ ':' :: rest) := by
    rw [IsWeb, not_or]
    exact ⟨not_prefix_of_head? (by decide) (by simp), not_prefix_of_head? (by decide) (by simp)⟩
  have hplain : ¬ "github.com/".toList <+: "git@".toList ++ host.toList ++ ':' :: rest := by
    rintro ⟨t, ht⟩
    simp at ht
  have hgithub : "git@github.com:".toList <+: "git@".toList ++ host.toList ++ ':' :: rest ↔
      host = "github.com" := by
    have hlead : "git@github.com:".toList = "git@".toList ++ ("github.com".toList ++ [':']) := by
      decide
    rw [hlead, List.append_assoc, List.prefix_append_right_inj, prefix_snoc_iff (by decide) hcolon,
      String.toList_inj, eq_comm]
  by_cases hself : host = "github.com"
  · have hrest : afterLead? "git@github.com:" ("git@".toList ++ host.toList ++ ':' :: rest) =
        some rest := by
      rw [afterLead?_eq_some_iff, hself]
      simp
    rw [pathOf?_of_not_isWeb hweb, hrest, if_pos hself]
    rfl
  · rw [if_neg hself, pathOf?_eq_self_iff hweb, IsHosted, not_or, hgithub]
    exact ⟨hself, hplain⟩

/-- On another host, a web address has no path of a repository, and the other forms are all path. -/
theorem pathOf?_lead (hne : host ≠ "") (hrest : ∀ c ∈ rest, isWordChar c = true) (form : AddressForm) :
    pathOf? ((form.lead host).toList ++ rest) =
      if form.isWeb then if host.toLower = "github.com" then some (pathOf ('/' :: rest)) else none
      else some (if host = "github.com" then rest else (form.lead host).toList ++ rest) := by
  cases form with
  | https =>
    have htext : (AddressForm.https.lead host).toList ++ rest =
        "https:".toList ++ '/' :: '/' :: (host.toList ++ '/' :: rest) := by simp [AddressForm.lead]
    rw [htext, pathOf?_web hhost hne hrest (.inl rfl)]
    rfl
  | http =>
    have htext : (AddressForm.http.lead host).toList ++ rest =
        "http:".toList ++ '/' :: '/' :: (host.toList ++ '/' :: rest) := by simp [AddressForm.lead]
    rw [htext, pathOf?_web hhost hne hrest (.inr rfl)]
    rfl
  | plain =>
    have htext : (AddressForm.plain.lead host).toList ++ rest = host.toList ++ '/' :: rest := by
      simp [AddressForm.lead]
    rw [htext, pathOf?_plain hhost]
    rfl
  | ssh =>
    have htext : (AddressForm.ssh.lead host).toList ++ rest =
        "git@".toList ++ host.toList ++ ':' :: rest := by simp [AddressForm.lead]
    rw [htext, pathOf?_ssh hhost]
    rfl

end Host

/-- The short spelling, or an address on GitHub. -/
inductive Spelling where
  | short (slashes : Nat)
  | address (form : AddressForm)

namespace Spelling

/-- What stands in front of the owner. -/
def lead : Spelling → String
  | short n => slashes n
  | address form => form.lead "github.com"

end Spelling

namespace IsRegular

/-- The path of an address has no steps. -/
theorem isStraight (h : r.IsRegular) (e : Ending) : IsStraight (r.display.toList ++ e.text.toList) := by
  have htail : ∀ c ∈ e.tail.toList, isPlain c = true := by
    rw [← List.all_eq_true, Ending.tail]
    split <;> decide
  have howner : isAbove r.owner.toList = false ∧ isHere r.owner.toList = false := by
    have hdot : '.' ∉ r.owner.toList := noDot_of_isLabelChar h.owner
    exact noStep_of_isPlain h.isPlain_owner (fun hs => hdot (hs ▸ by decide))
      (fun hs => hdot (hs ▸ by decide))
  have hplain : ∀ c ∈ r.name.toList ++ e.tail.toList, isPlain c = true :=
    List.forall_mem_append.mpr ⟨h.name, htail⟩
  have hname : isAbove (r.name.toList ++ e.tail.toList) = false ∧
      isHere (r.name.toList ++ e.tail.toList) = false := by
    cases hgit : e.git with
    | false =>
      rw [Ending.tail, hgit, if_neg Bool.false_ne_true, String.toList_empty, List.append_nil]
      exact noStep_of_isPlain h.name (fun hs => h.ne_here (String.toList_inj.mp hs))
        (fun hs => h.ne_above (String.toList_inj.mp hs))
    | true =>
      have hlength : 4 ≤ (r.name.toList ++ e.tail.toList).length := by simp [Ending.tail, hgit]
      exact noStep_of_isPlain hplain (fun hs => absurd hlength (by simp [hs]))
        (fun hs => absurd hlength (by simp [hs]))
  have htext : r.display.toList ++ e.text.toList = r.owner.toList ++
      '/' :: ((r.name.toList ++ e.tail.toList) ++ List.replicate e.slashes '/') := by
    simp [toList_display, Ending.text, toList_slashes]
  rw [htext]
  refine isStraight_append (fun c hc => isSlash_of_isPlain (h.isPlain_owner c hc)) howner ?_
  exact isStraight_replicate (fun c hc => isSlash_of_isPlain (hplain c hc)) hname e.slashes

/-- Whatever the spelling, the path is the short spelling with slashes around it. -/
theorem pathOf?_spelled (h : r.IsRegular) (spelling : Spelling) (e : Ending) : ∃ n,
    pathOf? (spelling.lead.toList ++ (r.display.toList ++ e.text.toList)) =
      some ((slashes n).toList ++ (r.display.toList ++ e.text.toList)) := by
  cases spelling with
  | short n =>
    refine ⟨n, ?_⟩
    cases n with
    | zero =>
      -- Without slashes in front of it, the owner stands where a host may stand.
      have hother : r.owner ≠ "github.com" := by
        intro hgithub
        exact noDot_of_isLabelChar h.owner (hgithub ▸ by decide)
      have hpath := pathOf?_plain h.isPlain_owner (r.name.toList ++ e.text.toList)
      rw [if_neg hother] at hpath
      simpa [Spelling.lead, slashes, toList_display] using hpath
    | succ n =>
      rw [Spelling.lead, toList_slashes, List.replicate_succ, List.cons_append, pathOf?_slash]
  | address form =>
    have hgithub : ∀ c ∈ "github.com".toList, isPlain c = true := List.all_eq_true.mp (by decide)
    rw [Spelling.lead, pathOf?_lead hgithub (by decide) (h.isWordChar_of_mem e) form]
    cases form.isWeb with
    | true =>
      refine ⟨1, ?_⟩
      rw [if_pos rfl, if_pos toLower_github, pathOf_of_isStraight (h.isWordChar_of_mem e) (h.isStraight e)]
      rfl
    | false =>
      refine ⟨0, ?_⟩
      rw [if_neg Bool.false_ne_true, if_pos rfl]
      rfl

end IsRegular

theorem IsRegular.isPair (h : r.IsRegular) (howner : r.owner ≠ "") (hname : r.name ≠ "") : r.IsPair where
  owner_ne_nil := by simpa using howner
  name_ne_nil := by simpa using hname
  owner_noSlash hslash := absurd (h.owner '/' hslash) (by decide)
  name_noSlash := h.noSlash_name

theorem AddressForm.isWordChar_of_mem_lead (hhost : ∀ c ∈ host.toList, isPlain c = true)
    (form : AddressForm) : ∀ c ∈ (form.lead host).toList, isWordChar c = true := by
  have hword : host.toList.all isWordChar = true :=
    List.all_eq_true.mpr fun c hc => isWordChar_of_isPlain (hhost c hc)
  rw [← List.all_eq_true]
  cases form <;> simp only [AddressForm.lead, String.toList_append, List.all_append, hword] <;> decide

/-- White space around a text counts as little as the host in front of its path. -/
theorem parse?_of_isWordChar {before after lead : String} (hbefore : ∀ c ∈ before.toList, isBlank c = true)
    (hafter : ∀ c ∈ after.toList, isBlank c = true) (hlead : ∀ c ∈ lead.toList, isWordChar c = true)
    (h : r.IsRegular) (e : Ending) : parse? (before ++ (lead ++ r.display ++ e.text) ++ after) =
      (pathOf? (lead.toList ++ (r.display.toList ++ e.text.toList))).bind ofPath? := by
  have hne : lead.toList ++ (r.display.toList ++ e.text.toList) ≠ [] := by simp [r.display_ne_nil]
  have hsolid : ∀ c ∈ lead.toList ++ (r.display.toList ++ e.text.toList), isBlank c = false := by
    intro c hc
    apply isBlank_of_isWordChar
    rcases List.mem_append.mp hc with hc | hc
    · exact hlead c hc
    · exact h.isWordChar_of_mem e c hc
  have htext : (before ++ (lead ++ r.display ++ e.text) ++ after).toList =
      before.toList ++ (lead.toList ++ (r.display.toList ++ e.text.toList)) ++ after.toList := by simp
  rw [parse?, htext, trim_append_of_blank hbefore hafter hne hsolid]
  rfl

/-- Every spelling of a repository on GitHub is read as that repository, as soon as it has an owner and
a name. -/
theorem parse?_spelled_iff (h : r.IsRegular) (spelling : Spelling) (e : Ending) {before after : String}
    (hbefore : ∀ c ∈ before.toList, isBlank c = true) (hafter : ∀ c ∈ after.toList, isBlank c = true) :
    parse? (before ++ (spelling.lead ++ r.display ++ e.text) ++ after) = some r ↔
      r.owner ≠ "" ∧ r.name ≠ "" := by
  constructor
  · intro hparse
    have hpair := isPair_of_parse? hparse
    exact ⟨by simpa using hpair.owner_ne_nil, by simpa using hpair.name_ne_nil⟩
  · rintro ⟨howner, hname⟩
    have hlead : ∀ c ∈ spelling.lead.toList, isWordChar c = true := by
      cases spelling with
      | short n => exact fun c hc => eq_of_beq (forall_mem_slashes n c hc) ▸ by decide
      | address form => exact form.isWordChar_of_mem_lead (List.all_eq_true.mp (by decide))
    obtain ⟨n, hpath⟩ := h.pathOf?_spelled spelling e
    rw [parse?_of_isWordChar hbefore hafter hlead h, hpath, Option.bind_some, ← List.append_assoc,
      ofPath?_eq_some_iff_padded]
    exact ⟨h.isPair howner hname, n, e, rfl, fun _ => h.no_tail⟩

/-- Only the last ending of a name is left out. -/
theorem parse?_spelled_iff_dotted :
    IsRegular ⟨"foo", "git.git.x"⟩ ∧
      parse? " \thttps://github.com/foo/git.git.x.git///\n" = some ⟨"foo", "git.git.x"⟩ := by
  have hregular : IsRegular ⟨"foo", "git.git.x"⟩ :=
    ⟨List.all_eq_true.mp (by decide), List.all_eq_true.mp (by decide), by decide, by decide, by decide⟩
  have hbefore : ∀ c ∈ " \t".toList, isBlank c = true := List.all_eq_true.mp (by decide)
  have hafter : ∀ c ∈ "\n".toList, isBlank c = true := List.all_eq_true.mp (by decide)
  have hparse := parse?_spelled_iff hregular (.address .https) ⟨true, 3⟩ hbefore hafter
  have htext : " \t" ++ ((Spelling.address .https).lead ++ display ⟨"foo", "git.git.x"⟩ ++
      Ending.text ⟨true, 3⟩) ++ "\n" = " \thttps://github.com/foo/git.git.x.git///\n" := by
    decide +kernel
  rw [htext] at hparse
  exact ⟨hregular, hparse.mpr ⟨by decide, by decide⟩⟩

end ReleaseInstaller.Repo
