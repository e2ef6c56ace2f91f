import ReleaseInstaller.Generation.Basic
import ReleaseInstaller.Installer.Script
import ReleaseInstaller.Release.Defaults

/-! Generating an installer: from a request and what is on disk to an outcome and what is on disk
then. -/
namespace ReleaseInstaller.Generation

structure Request where
  /-- A release description on disk. -/
  file : Option String
  /-- The repository of the release, and of the description if it is not on disk. -/
  repo : Option String
  /-- The name to try first for a description that is not on disk. -/
  configName : Option String
  output : Option String
  /-- Write the output even if it does the same already. -/
  force : Bool
  /-- Look at the output instead of writing it. -/
  check : Bool
  generatedAt : Option String
  deriving Repr

inductive Outcome where
  /-- The script itself, where no output is named. -/
  | script (text : String)
  | wrote (path : String)
  | unchanged (path : String)
  | upToDate (path : String)
  deriving DecidableEq, Repr

def parseRepo (text : String) : Except Failure Repo :=
  match Repo.parse? text with
  | some repo => .ok repo
  | none => .error (.repo text)

/-- The release description in a file. -/
def load (s : Store) (path : String) : Except Failure Project := do
  match Project.ofYaml? (← read s path) with
  | some project => .ok project
  | none => .error (.malformed path)

/-- The release description of a repository. -/
def loadRemote (server : Remote.Server) (repo : Repo) (preferred : Option String) :
    Except Failure Project :=
  (Remote.visit server repo.rawContentUrl preferred).result.mapError .remote

/-- The description that a request names. -/
def loadProject (server : Remote.Server) (s : Store) (q : Request) (repo : Option Repo) :
    Except Failure Project :=
  match q.file, repo with
  | some path, _ => load s path
  | none, some repo => loadRemote server repo q.configName
  | none, none => .error .noSource

/-- The release that a request is about. -/
def loadRelease (server : Remote.Server) (s : Store) (q : Request) : Except Failure Release := do
  let repo ← q.repo.mapM parseRepo
  let project ← loadProject server s q repo
  (Release.ofProject project repo).mapError .release

/-- Whether the output has to be written. -/
def isDue (s : Store) (q : Request) (path generated : String) : Except Failure Bool :=
  if q.force then .ok true else shouldWrite s path generated

/-- What becomes of a generated script. -/
def deliver (q : Request) (generated : String) : Action Outcome := do
  match q.output with
  | none => return .script generated
  | some path =>
    if q.check then
      look (check · path generated)
      return .upToDate path
    else if ← look (isDue · q path generated) then
      write path generated
      return .wrote path
    else return .unchanged path

/-- A step of a run, for those who want to follow it. -/
inductive Event where
  | reading (path : String)
  | resolved (repo : Repo)
  | archiveName (line : String)
  | checksumName (line : String)
  | rendering (repo : Repo) (platforms : Nat)
  | leaving (path : String)
  | wrote (path : String)
  deriving DecidableEq, Repr

/-- What a run that goes well comes to. -/
structure Success where
  release : Release
  installer : Installer
  outcome : Outcome

/-- A run from the description to what becomes of the script. -/
def perform (server : Remote.Server) (q : Request) : Action Success := do
  let release ← look (loadRelease server · q)
  let installer ← look fun _ =>
    (Installer.ofRelease release q.generatedAt).mapError .installer
  let outcome ← deliver q installer.script
  return { release, installer, outcome }

/-- What a run comes to. -/
def attempt (server : Remote.Server) (s : Store) (q : Request) : Except Failure Success :=
  (perform server q s).1

/-- The steps of a run that goes well. -/
def Success.events (r : Success) (q : Request) : List Event :=
  (q.file.map .reading).toList ++
    [.resolved r.release.repo, .archiveName r.installer.archiveName,
      .checksumName r.installer.checksumName,
      .rendering r.release.repo r.installer.supported.length] ++
    match r.outcome with
    | .wrote path => [.wrote path]
    | .unchanged path => [.leaving path]
    | _ => []

/-- The outcome of a request, and the directory tree after it. -/
def generate (server : Remote.Server) (s : Store) (q : Request) : Except Failure Outcome × Store :=
  let (result, s) := perform server q s
  (result.map (·.outcome), s)

end ReleaseInstaller.Generation
