import ReleaseInstaller.Project.Document

/-! Release descriptions on a server: some file names are tried one after the other. -/
namespace ReleaseInstaller.Remote
open Text

inductive Answer where
  /-- A final answer with the body that its status allows. -/
  | response (status : Nat) (body : List UInt8)
  /-- The connection could not be made or was closed. -/
  | dropped
  deriving Repr

/-- What a server answers to a request for a path. -/
abbrev Server := String → Answer

/-- The server that cannot be reached. -/
def unreachable : Server := fun _ => .dropped

inductive Fault where
  | notFound (baseUrl : String) (tried : List String)
  | requestFailed
  | malformed
  deriving DecidableEq, Repr

/-- The usual names of a description. -/
def usualNames : List String :=
  ["goreleaser.yml", ".goreleaser.yml", "goreleaser.yaml", ".goreleaser.yaml"]

/-- The names to try; a preferred one comes first. -/
def candidates (preferred : Option String) : List String :=
  (preferred.filter (!·.isEmpty)).toList ++ usualNames

/-- What came of it, with the paths that have been requested. -/
structure Visit where
  requests : List String
  result : Except Fault Project

def isSuccess (status : Nat) : Bool := 200 ≤ status && status ≤ 299

/-- What is requested from the server for a file. -/
def target? (baseUrl file : String) : Option String :=
  (Url.parse? (baseUrl ++ "/" ++ file).toList).map Url.requestTarget

/-- Tries names until the server has a file; `tried` are all names, for the message. -/
def visitFrom (server : Server) (baseUrl : String) (tried : List String) : List String → Visit
  | [] => ⟨[], .error (.notFound baseUrl tried)⟩
  | file :: rest =>
    match target? baseUrl file with
    | none => ⟨[], .error .requestFailed⟩
    | some path =>
      match server path with
      | .dropped => ⟨[path], .error .requestFailed⟩
      | .response status body =>
        if isSuccess status then
          ⟨[path], (Project.ofYaml? (documentText body)).elim (.error .malformed) .ok⟩
        else
          let later := visitFrom server baseUrl tried rest
          ⟨path :: later.requests, later.result⟩

def visit (server : Server) (baseUrl : String) (preferred : Option String) : Visit :=
  visitFrom server baseUrl (candidates preferred) (candidates preferred)

end ReleaseInstaller.Remote
