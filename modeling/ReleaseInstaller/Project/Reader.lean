import ReleaseInstaller.Project.Basic

/-! Reading release descriptions from values of some notation. Unknown fields are passed over. -/
namespace ReleaseInstaller

/-- How the values of a notation are read where a value of some type is wanted. -/
structure ValueReader (α : Type) where
  /-- The values that a record gives to the named fields. -/
  record? : List String → α → Option (String → Option α)
  items? : α → Option (List α)
  entries? : α → Option (List (String × α))
  text? : α → Option String
  optionalText? : α → Option (Option String)
  textOrInteger? : α → Option String
  optionalTextOrInteger? : α → Option (Option String)
  truth? : α → Option Bool

namespace ValueReader

variable {α : Type} (r : ValueReader α)

/-- Reads a value, or takes a default where it is missing. -/
def withDefault {β : Type} (value : β) (read : α → Option β) : Option α → Option β
  | none => some value
  | some v => read v

def list? {β : Type} (read : α → Option β) (v : α) : Option (List β) :=
  (r.items? v).bind fun items => items.mapM read

/-- A map from texts to texts; of two entries with the same key the later one counts. -/
def dictionary? (v : α) : Option Dictionary := do
  let entries ← r.entries? v
  return Dictionary.ofList (← entries.mapM fun e => (r.text? e.2).map fun value => (e.1, value))

end ValueReader

open ValueReader

variable {α : Type} (r : ValueReader α)

def IgnoreRule.fields : List String := ["goos", "goarch", "goarm"]

def IgnoreRule.read? (v : α) : Option IgnoreRule := do
  let get ← r.record? fields v
  return {
    os := ← withDefault "" r.text? (get "goos")
    arch := ← withDefault "" r.textOrInteger? (get "goarch")
    revision := ← withDefault none r.optionalTextOrInteger? (get "goarm") }

def Build.fields : List String := ["binary", "goos", "goarch", "goarm", "ignore"]

def Build.read? (v : α) : Option Build := do
  let get ← r.record? fields v
  return {
    binary := ← withDefault "" r.text? (get "binary")
    systems := ← withDefault [] (r.list? r.text?) (get "goos")
    archs := ← withDefault [] (r.list? r.textOrInteger?) (get "goarch")
    revisions := ← withDefault [] (r.list? r.textOrInteger?) (get "goarm")
    ignored := ← withDefault [] (r.list? (IgnoreRule.read? r)) (get "ignore") }

def FormatOverride.fields : List String := ["goos", "format"]

/-- Both fields have to be there. -/
def FormatOverride.read? (v : α) : Option FormatOverride := do
  let get ← r.record? fields v
  return { os := ← r.text? (← get "goos"), format := ← r.text? (← get "format") }

namespace Project

def repoFields : List String := ["owner", "name"]

def readRepo? (v : α) : Option Repo := do
  let get ← r.record? repoFields v
  return {
    owner := ← withDefault "" r.text? (get "owner")
    name := ← withDefault "" r.text? (get "name") }

def releaseFields : List String := ["github"]

def readRelease? (v : α) : Option Repo := do
  let get ← r.record? releaseFields v
  withDefault ⟨"", ""⟩ (readRepo? r) (get "github")

def archiveFields : List String :=
  ["name_template", "format", "format_overrides", "replacements", "wrap_in_directory"]

def readArchive? (v : α) : Option Archive := do
  let get ← r.record? archiveFields v
  return {
    nameTemplate := ← withDefault none r.optionalText? (get "name_template")
    format := ← withDefault none r.optionalText? (get "format")
    formatOverrides :=
      ← withDefault [] (r.list? (FormatOverride.read? r)) (get "format_overrides")
    replacements := ← withDefault ∅ r.dictionary? (get "replacements")
    wrapInDirectory := ← withDefault false r.truth? (get "wrap_in_directory") }

def checksumFields : List String := ["name_template"]

def readChecksum? (v : α) : Option (Option String) := do
  let get ← r.record? checksumFields v
  withDefault none r.optionalText? (get "name_template")

def fields : List String := ["project_name", "release", "builds", "archive", "checksum"]

/-- The project that a value describes. -/
def read? (v : α) : Option Project := do
  let get ← r.record? fields v
  return {
    name := ← withDefault none r.optionalText? (get "project_name")
    repo := ← withDefault ⟨"", ""⟩ (readRelease? r) (get "release")
    builds := ← withDefault [] (r.list? (Build.read? r)) (get "builds")
    archive := ← withDefault default (readArchive? r) (get "archive")
    checksumTemplate := ← withDefault none (readChecksum? r) (get "checksum") }

end Project

end ReleaseInstaller
