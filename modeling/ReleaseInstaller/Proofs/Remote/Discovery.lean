import ReleaseInstaller.Proofs.Url.Address
import ReleaseInstaller.Remote

/-! The search for a description on a server. It goes through the names in order, and the first answer
that is no refusal settles what comes of it. -/
namespace ReleaseInstaller.Remote
open Text Url

variable {server : Server} {baseUrl file path : String} {tried names rest paths : List String}
  {missing : Fault} {v : Visit}

namespace Answer

/-- The search goes on only after an answer that is no success. -/
def isFinal : Answer → Bool
  | response status _ => 200 ≤ status && status ≤ 299
  | dropped => true

/-- What an answer makes of the search that it ends. -/
def reading : Answer → Except Fault Project
  | response _ body => (Project.ofYaml? (documentText body)).elim (.error .malformed) .ok
  | dropped => .error .requestFailed

end Answer

/-- The visits on which the answers to requests for `paths`, made in this order, may lead: the first
final one ends the search, and without one the outcome is `missing`. -/
inductive Discovers (server : Server) (missing : Fault) (paths : List String) : Visit → Prop where
  | found (passed : List String) (path : String) (later : List String)
      (hpaths : paths = passed ++ path :: later)
      (hpassed : ∀ p ∈ passed, (server p).isFinal = false)
      (hfinal : (server path).isFinal = true) :
      Discovers server missing paths ⟨passed ++ [path], (server path).reading⟩
  | exhausted (hpassed : ∀ p ∈ paths, (server p).isFinal = false) :
      Discovers server missing paths ⟨paths, .error missing⟩

/-- An address below which every file has an address. Whether its host is there shows in the answers. -/
structure IsBaseUrl (baseUrl : String) : Prop where
  exists_parse? : ∃ u, Url.parse? baseUrl.toList = some u
  no_space_last : ∀ c ∈ baseUrl.toList.getLast?, isControlOrSpace c = false

theorem IsBaseUrl.exists_target? (h : IsBaseUrl baseUrl) (file : String) :
    ∃ path, target? baseUrl file = some path := by
  obtain ⟨u, hu⟩ := h.exists_parse?
  obtain ⟨w, hw⟩ := exists_parse?_below hu h.no_space_last file.toList
  have htext : (baseUrl ++ "/" ++ file).toList = baseUrl.toList ++ '/' :: file.toList := by simp
  exact ⟨w.requestTarget, by rw [target?, htext, hw, Option.map_some]⟩

theorem IsBaseUrl.exists_mapM_target? (h : IsBaseUrl baseUrl) (names : List String) :
    ∃ paths, names.mapM (target? baseUrl) = some paths := by
  induction names with
  | nil => exact ⟨[], rfl⟩
  | cons file rest ih =>
    obtain ⟨path, hpath⟩ := h.exists_target? file
    obtain ⟨paths, hpaths⟩ := ih
    exact ⟨path :: paths, by rw [List.mapM_cons, hpath, hpaths]; rfl⟩

theorem discovers_nil_iff : Discovers server missing [] v ↔ v = ⟨[], .error missing⟩ := by
  constructor
  · intro h
    cases h with
    | found passed path later hpaths => simp at hpaths
    | exhausted => rfl
  · rintro rfl
    exact .exhausted (by simp)

/-- Either the first answer ends the search, or the search goes on as if it had begun behind it. -/
theorem discovers_cons_iff : Discovers server missing (path :: paths) v ↔
    (server path).isFinal = true ∧ v = ⟨[path], (server path).reading⟩ ∨
    (server path).isFinal = false ∧
      ∃ w, Discovers server missing paths w ∧ v = ⟨path :: w.requests, w.result⟩ := by
  constructor
  · intro h
    cases h with
    | found passed last later hpaths hpassed hfinal =>
      -- The search ends at the first request exactly if none has been passed before its end.
      cases passed with
      | nil =>
        obtain ⟨rfl, -⟩ := List.cons.inj hpaths
        exact .inl ⟨hfinal, rfl⟩
      | cons first passed =>
        obtain ⟨rfl, hrest⟩ := List.cons.inj hpaths
        obtain ⟨hfirst, hothers⟩ := List.forall_mem_cons.mp hpassed
        exact .inr ⟨hfirst, _, .found passed last later hrest hothers hfinal, rfl⟩
    | exhausted hpassed =>
      obtain ⟨hfirst, hothers⟩ := List.forall_mem_cons.mp hpassed
      exact .inr ⟨hfirst, _, .exhausted hothers, rfl⟩
  · rintro (⟨hfinal, rfl⟩ | ⟨hfirst, w, hw, rfl⟩)
    · exact .found [] path paths rfl (by simp) hfinal
    · cases hw with
      | found passed last later hpaths hpassed hfinal =>
        exact .found (path :: passed) last later (hpaths ▸ rfl)
          (List.forall_mem_cons.mpr ⟨hfirst, hpassed⟩) hfinal
      | exhausted hpassed =>
        exact .exhausted (List.forall_mem_cons.mpr ⟨hfirst, hpassed⟩)

theorem visitFrom_of_isFinal (hpath : target? baseUrl file = some path)
    (hfinal : (server path).isFinal = true) :
    visitFrom server baseUrl tried (file :: rest) = ⟨[path], (server path).reading⟩ := by
  rw [visitFrom, hpath]
  cases hanswer : server path with
  | dropped => simp only [hanswer, Answer.reading]
  | response status body =>
    have hsuccess : isSuccess status = true := by rwa [hanswer] at hfinal
    simp only [hanswer, hsuccess, if_pos, Answer.reading]

theorem visitFrom_of_not_isFinal (hpath : target? baseUrl file = some path)
    (hfinal : (server path).isFinal = false) :
    visitFrom server baseUrl tried (file :: rest) =
      ⟨path :: (visitFrom server baseUrl tried rest).requests,
        (visitFrom server baseUrl tried rest).result⟩ := by
  rw [visitFrom, hpath]
  cases hanswer : server path with
  | dropped =>
    rw [hanswer] at hfinal
    contradiction
  | response status body =>
    have hsuccess : isSuccess status = false := by rwa [hanswer] at hfinal
    simp only [hanswer, hsuccess, Bool.false_eq_true, if_false]

/-- By induction on the names: every request is answered on its own. -/
theorem visitFrom_iff_discovers (hpaths : names.mapM (target? baseUrl) = some paths) (v : Visit) :
    visitFrom server baseUrl tried names = v ↔
      Discovers server (.notFound baseUrl tried) paths v := by
  induction names generalizing paths v with
  | nil =>
    obtain rfl : [] = paths := by simpa using hpaths
    rw [discovers_nil_iff, visitFrom, eq_comm]
  | cons file rest ih =>
    rw [List.mapM_cons] at hpaths
    obtain ⟨path, hpath, hlater⟩ := Option.bind_eq_some_iff.mp hpaths
    obtain ⟨later, hrest, hcons⟩ := Option.bind_eq_some_iff.mp hlater
    obtain rfl : path :: later = paths := by simpa using hcons
    rw [discovers_cons_iff]
    cases hfinal : (server path).isFinal with
    | true => simp [visitFrom_of_isFinal hpath hfinal, eq_comm]
    | false => simp [visitFrom_of_not_isFinal hpath hfinal, ← ih hrest, eq_comm]

/-- The requests stop behind the first final answer, which decides on the result; a preferred name is
tried before the usual ones. -/
theorem visit_iff_discovers (h : IsBaseUrl baseUrl) (server : Server) (preferred : Option String) :
    (∃ paths, (candidates preferred).mapM (target? baseUrl) = some paths ∧
      ∀ v, visit server baseUrl preferred = v ↔
        Discovers server (.notFound baseUrl (candidates preferred)) paths v) ∧
    (∀ name ≠ "", preferred = some name → candidates preferred =
      [name, "goreleaser.yml", ".goreleaser.yml", "goreleaser.yaml", ".goreleaser.yaml"]) ∧
    (preferred = none ∨ preferred = some "" → candidates preferred =
      ["goreleaser.yml", ".goreleaser.yml", "goreleaser.yaml", ".goreleaser.yaml"]) := by
  refine ⟨?_, ?_, ?_⟩
  · obtain ⟨paths, hpaths⟩ := h.exists_mapM_target? (candidates preferred)
    exact ⟨paths, hpaths, visitFrom_iff_discovers hpaths⟩
  · rintro name hname rfl
    have hkept : (some name).filter (!·.isEmpty) = some name := by simp [Option.filter, hname]
    rw [candidates, hkept]
    rfl
  · rintro (rfl | rfl) <;> rfl

/-- A name with a space is escaped in its request, and capitals in the scheme of the address do not
matter. An answer with a status of success ends the search whether or not a description can be made out
in its body, and so does a lost connection, which is not taken for a missing file. -/
theorem visit_iff_discovers_answered :
    let serving : Answer → Server := fun answer path =>
      if path = "/o/n/master/a%20b.yml" then .response 404 [] else answer
    let body : List UInt8 := "project_name: n".toList.map fun c => c.toNat.toUInt8
    let requests := ["/o/n/master/a%20b.yml", "/o/n/master/goreleaser.yml"]
    IsBaseUrl "HTTP://files/o/n/master" ∧
      visit (serving (.response 206 body)) "HTTP://files/o/n/master" (some "a b.yml") =
        ⟨requests, .ok ⟨some "n", ⟨"", ""⟩, [], default, none⟩⟩ ∧
      visit (serving (.response 299 [0x5b])) "HTTP://files/o/n/master" (some "a b.yml") =
        ⟨requests, .error .malformed⟩ ∧
      visit (serving .dropped) "HTTP://files/o/n/master" (some "a b.yml") =
        ⟨requests, .error .requestFailed⟩ := by
  intro serving body requests
  have hbase : IsBaseUrl "HTTP://files/o/n/master" :=
    ⟨Option.isSome_iff_exists.mp (by decide +kernel), by simp [isControlOrSpace]⟩
  have htargets : (candidates (some "a b.yml")).mapM (target? "HTTP://files/o/n/master") =
      some ["/o/n/master/a%20b.yml", "/o/n/master/goreleaser.yml", "/o/n/master/.goreleaser.yml",
        "/o/n/master/goreleaser.yaml", "/o/n/master/.goreleaser.yaml"] := by decide +kernel
  have hserved : ∀ answer, serving answer "/o/n/master/goreleaser.yml" = answer :=
    fun answer => if_neg (by decide)
  have hvisit : ∀ answer : Answer, answer.isFinal = true →
      visit (serving answer) "HTTP://files/o/n/master" (some "a b.yml") =
        ⟨requests, answer.reading⟩ := by
    intro answer hfinal
    obtain ⟨⟨paths, hpaths, hdiscovers⟩, -⟩ :=
      visit_iff_discovers hbase (serving answer) (some "a b.yml")
    obtain rfl := Option.some.inj (htargets.symm.trans hpaths)
    have hresult : answer.reading = (serving answer "/o/n/master/goreleaser.yml").reading := by
      rw [hserved]
    rw [hresult]
    refine (hdiscovers _).mpr
      (.found ["/o/n/master/a%20b.yml"] "/o/n/master/goreleaser.yml" _ rfl ?_ ?_)
    · simp [serving, Answer.isFinal]
    · rwa [hserved]
  have hread : Project.ofYaml? (documentText body) = some ⟨some "n", ⟨"", ""⟩, [], default, none⟩ := by
    decide +kernel
  have hunread : Project.ofYaml? (documentText [0x5b]) = none := by decide +kernel
  refine ⟨hbase, ?_, ?_, hvisit .dropped rfl⟩
  · rw [hvisit _ rfl, Answer.reading, hread, Option.elim_some]
  · rw [hvisit _ rfl, Answer.reading, hunread, Option.elim_none]

end ReleaseInstaller.Remote
