import ReleaseInstaller.Generation.Run
import ReleaseInstaller.Proofs.Installer.Rendering
import ReleaseInstaller.Proofs.Repo.Address

/-! Addresses of repositories on other hosts than GitHub. They are refused as long as the host is taken
for a part of the path; behind a user name it is taken for a part of the owner. -/
namespace ReleaseInstaller.Repo
open Text Shell Url

/-- The text of an address. -/
def address (form : AddressForm) (host : String) (r : Repo) (e : Ending) : String :=
  form.lead host ++ r.display ++ e.text

/-- What the owner is taken for behind a user name and a host. -/
def foreignOwner (host owner : String) : String := "git@" ++ host ++ ":" ++ owner

/-- A repository whose parts are words has an installer, even if its release is not described. -/
theorem exists_installer {r : Repo} (howner : isWord r.owner = true) (hname : isWord r.name = true)
    (date : Option String) : ∃ release i, Release.ofProject default (some r) = .ok release ∧
      Installer.ofRelease release date = .ok i ∧ i.repoUrl = r.webUrl := by
  have harchive : NameTemplate.assign NameTemplate.archiveTarget
      (Release.withDefaults default r).archive.nameTemplate = .ok _ := Installer.assign_armArchive
  have hchecksum : NameTemplate.assign NameTemplate.checksumTarget
      (Release.withDefaults default r).checksumTemplate = .ok _ := Installer.assign_armChecksum
  obtain ⟨primary, rest, hb⟩ :=
    List.exists_cons_of_ne_nil (Release.builds_withDefaults_ne_nil default r)
  have hinstaller := Installer.ofRelease_eq hb date
  rw [harchive, hchecksum] at hinstaller
  exact ⟨_, _, Release.ofProject_default howner hname, hinstaller, rfl⟩

theorem parseRepo_eq_ok_iff {text : String} {r : Repo} :
    Generation.parseRepo text = .ok r ↔ parse? text = some r := by
  unfold Generation.parseRepo
  cases parse? text <;> simp

theorem parseRepo_eq_error_iff {text : String} :
    Generation.parseRepo text = .error (.repo text) ↔ parse? text = none := by
  unfold Generation.parseRepo
  cases parse? text <;> simp

variable {host owner name : String}

section Parts
variable (hhost : isHostName host = true) (howner : isLabel owner = true) (hname : isLabel name = true)
include hhost howner hname

/-- A path with a host in it has too many parts. -/
theorem ofPath?_plain (e : Ending) : ofPath? ((AddressForm.plain.lead host).toList ++
    ((display ⟨owner, name⟩).toList ++ e.text.toList)) = none := by
  obtain ⟨hne, hplain⟩ := isHostName_iff.mp hhost
  have hpair : IsPair ⟨owner, name⟩ :=
    (IsRegular.of_isLabel howner hname).isPair (isLabel_iff.mp howner).1 (isLabel_iff.mp hname).1
  have hpath : (AddressForm.plain.lead host).toList ++
      ((display ⟨owner, name⟩).toList ++ e.text.toList) = (slashes 0).toList ++
        (host.toList ++ '/' :: ((display ⟨owner, name⟩).toList ++ e.tail.toList)) ++
          (slashes e.slashes).toList := by
    simp [AddressForm.lead, Ending.text, slashes]
  rw [hpath]
  refine ofPath?_eq_none_of_count ?first ?last ?parts 0 e.slashes
  case first =>
    rw [List.head?_append_of_ne_nil _ (by simpa using hne)]
    exact fun c hc => ne_of_isPlain (hplain c (List.mem_of_head? hc)) (by decide)
  case last =>
    have hsolid := List.append_ne_nil_of_left_ne_nil (display_ne_nil ⟨owner, name⟩) e.tail.toList
    rw [List.append_cons, List.getLast?_append_of_ne_nil _ hsolid]
    exact hpair.getLast?_ending_ne e
  case parts =>
    rw [List.count_append, List.count_cons_self, List.count_append, hpair.count_display]
    omega

/-- The user name and the host stay in front of the owner. -/
theorem ofPath?_ssh (e : Ending) : ofPath? ((AddressForm.ssh.lead host).toList ++
    ((display ⟨owner, name⟩).toList ++ e.text.toList)) = some ⟨foreignOwner host owner, name⟩ := by
  have hplain := (isHostName_iff.mp hhost).2
  have hregular : IsRegular ⟨owner, name⟩ := .of_isLabel howner hname
  have hpair := hregular.isPair (isLabel_iff.mp howner).1 (isLabel_iff.mp hname).1
  have hslash : '/' ∉ host.toList := fun hmem => absurd (hplain '/' hmem) (by decide)
  have hforeign : IsPair ⟨foreignOwner host owner, name⟩ :=
    { hpair with
      owner_ne_nil := by simp [foreignOwner]
      owner_noSlash := by simpa [foreignOwner, hslash] using hpair.owner_noSlash }
  rw [ofPath?_eq_some_iff_padded]
  refine ⟨hforeign, 0, e, ?_, fun _ => hregular.no_tail⟩
  simp [AddressForm.lead, foreignOwner, slashes, toList_display]

theorem parse?_address (hother : host.toLower ≠ "github.com") (form : AddressForm) (e : Ending) :
    parse? (address form host ⟨owner, name⟩ e) =
      if form = .ssh then some ⟨foreignOwner host owner, name⟩ else none := by
  obtain ⟨hne, hplain⟩ := isHostName_iff.mp hhost
  have hregular : IsRegular ⟨owner, name⟩ := .of_isLabel howner hname
  have hgithub : host ≠ "github.com" := by
    rintro rfl
    exact hother toLower_github
  have hparse : parse? (address form host ⟨owner, name⟩ e) =
      (pathOf? ((form.lead host).toList ++ ((display ⟨owner, name⟩).toList ++ e.text.toList))).bind
        ofPath? := by
    have hnone : ∀ c ∈ "".toList, isBlank c = true := by simp
    rw [← parse?_of_isWordChar hnone hnone (form.isWordChar_of_mem_lead hplain) hregular e]
    simp [address]
  rw [hparse, pathOf?_lead hplain hne (hregular.isWordChar_of_mem e) form]
  cases form with
  | https => simp [AddressForm.isWeb, hother]
  | http => simp [AddressForm.isWeb, hother]
  | plain =>
    rw [AddressForm.isWeb, if_neg Bool.false_ne_true, if_neg hgithub, Option.bind_some,
      ofPath?_plain hhost howner hname e]
    rfl
  | ssh =>
    rw [AddressForm.isWeb, if_neg Bool.false_ne_true, if_neg hgithub, Option.bind_some, if_pos rfl,
      ofPath?_ssh hhost howner hname e]

/-- An address on another host is refused exactly if no user name is in front of the host. Otherwise the
host becomes part of the owner, and an installer is made for a repository on GitHub. -/
theorem parseRepo_address_iff (hother : host.toLower ≠ "github.com") (form : AddressForm) (e : Ending) :
    (Generation.parseRepo (address form host ⟨owner, name⟩ e) =
        .error (.repo (address form host ⟨owner, name⟩ e)) ↔ form ≠ .ssh) ∧
      (form = .ssh → Generation.parseRepo (address form host ⟨owner, name⟩ e) =
          .ok ⟨foreignOwner host owner, name⟩ ∧
        ∀ date, ∃ release i,
          Release.ofProject default (some ⟨foreignOwner host owner, name⟩) = .ok release ∧
            Installer.ofRelease release date = .ok i ∧
            i.repoUrl = webUrl ⟨foreignOwner host owner, name⟩) := by
  rw [parseRepo_eq_error_iff, parseRepo_eq_ok_iff, parse?_address hhost howner hname hother form e]
  constructor
  · simp
  · intro hssh
    have hregular : IsRegular ⟨owner, name⟩ := .of_isLabel howner hname
    have hforeign : isWord (foreignOwner host owner) = true := by
      have hplain := (isHostName_iff.mp hhost).2
      have hlead := AddressForm.ssh.isWordChar_of_mem_lead hplain
      rw [isWord_iff, foreignOwner, String.toList_append, List.forall_mem_append]
      exact ⟨by simp, hlead, fun c hc => isWordChar_of_isPlain (hregular.isPlain_owner c hc)⟩
    have hword : isWord name = true := isWord_iff.mpr
      ⟨(isLabel_iff.mp hname).1, fun c hc => isWordChar_of_isPlain (hregular.name c hc)⟩
    exact ⟨if_pos hssh, exists_installer hforeign hword⟩

end Parts

theorem toLower_gitlab_ne : "gitlab.com".toLower ≠ "github.com" := by
  rw [Ne, ← String.toList_inj, toList_toLower]
  decide

/-- With a user name, the host of another service becomes part of an owner. -/
theorem parseRepo_address_iff_gitlab :
    isHostName "gitlab.com" = true ∧ "gitlab.com".toLower ≠ "github.com" ∧ isLabel "foo" = true ∧
      isLabel "bar" = true ∧
      Generation.parseRepo "https://gitlab.com/foo/bar/" = .error (.repo "https://gitlab.com/foo/bar/") ∧
      Generation.parseRepo "git@gitlab.com:foo/bar.git" = .ok ⟨"git@gitlab.com:foo", "bar"⟩ := by
  have hhost : isHostName "gitlab.com" = true := by decide
  have howner : isLabel "foo" = true := by decide
  have hname : isLabel "bar" = true := by decide
  have hweb := parseRepo_address_iff hhost howner hname toLower_gitlab_ne .https ⟨false, 1⟩
  have hssh := parseRepo_address_iff hhost howner hname toLower_gitlab_ne .ssh ⟨true, 0⟩
  refine ⟨hhost, toLower_gitlab_ne, howner, hname, ?_, ?_⟩
  · exact hweb.1.mpr (by decide)
  · exact (hssh.2 rfl).1

/-- Not every address on another host is refused. -/
theorem user_name_hides_host : ¬ ∀ (form : AddressForm) (host owner name : String) (e : Ending),
    isHostName host = true → host.toLower ≠ "github.com" → isLabel owner = true → isLabel name = true →
      Generation.parseRepo (address form host ⟨owner, name⟩ e) =
        .error (.repo (address form host ⟨owner, name⟩ e)) := by
  intro h
  have hrefused := h .ssh "gitlab.com" "foo" "bar" ⟨false, 0⟩ (by decide) toLower_gitlab_ne (by decide)
    (by decide)
  have hread : parse? (address .ssh "gitlab.com" ⟨"foo", "bar"⟩ ⟨false, 0⟩) =
      some ⟨"git@gitlab.com:foo", "bar"⟩ := by decide
  rw [parseRepo_eq_error_iff, hread] at hrefused
  contradiction

end ReleaseInstaller.Repo
