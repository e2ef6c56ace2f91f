import ReleaseInstaller.CommandLine.Arguments
import ReleaseInstaller.Project.Schema

/-! What the program prints, and its exit code. -/
namespace ReleaseInstaller.CommandLine
open Generation Text

structure Reply where
  exitCode : Nat
  stdout : String
  stderr : String
  deriving DecidableEq, Repr

def usage : String :=
  "Usage: binfetch [OPTIONS] [FILE]\n" ++
    "       binfetch generate [OPTIONS] [FILE]\n" ++
    "       binfetch config-schema\n"

def versionText : String := "binfetch " ++ Installer.currentVersion ++ "\n"

/-- The steps that concern the progress of the work rather than its result. -/
def isDetail : Event → Bool
  | .archiveName _ | .checksumName _ | .rendering _ _ => true
  | _ => false

def eventText : Event → String
  | .reading path => "reading file " ++ quoted path
  | .resolved repo => "resolved release config for " ++ repo.display
  | .archiveName line => "archive name: " ++ line
  | .checksumName line => "checksum name: " ++ line
  | .rendering repo platforms =>
    "rendering installer for " ++ repo.display ++ " with " ++ toString platforms ++ " platforms"
  | .leaving path => path ++ " is up to date, leaving it alone"
  | .wrote path => "wrote " ++ path

/-- The line for a step, if steps of its kind are shown. -/
def eventLine (level : Level) (e : Event) : String :=
  if isDetail e then
    if level = .debug ∨ level = .trace then "DEBUG " ++ eventText e ++ "\n" else ""
  else if level ∈ [.info, .debug, .trace] then " INFO " ++ eventText e ++ "\n"
  else ""

/-- The line that tells the outcome, unless it is the script itself. -/
def outcomeLine : Outcome → String
  | .script _ => ""
  | .wrote path => "wrote " ++ path ++ "\n"
  | .unchanged path => path ++ " is already up to date\n"
  | .upToDate path => path ++ " is up to date\n"

def failureText (failure : Failure) : String :=
  "ERROR " ++ failure.message ++ "\n" ++
    match failure.advice? with
    | some advice => "  help: " ++ advice ++ "\n"
    | none => ""

def replyTo (q : Request) (level : Level) : Except Failure Success → Reply
  | .ok r =>
    { exitCode := 0
      stdout := match r.outcome with
        | .script text => text
        | _ => ""
      stderr :=
        String.join ((r.events q).map (eventLine level)) ++ outcomeLine r.outcome }
  | .error failure => ⟨1, "", if level = .off then "" else failureText failure⟩

/-- Runs the program at a time, and gives the directory tree after the run. -/
def run (server : Remote.Server) (s : Store) (now : String) (arguments : List String) :
    Reply × Store :=
  match Command.ofArguments arguments with
  | .generate g =>
    let q := g.request now
    let (result, s) := perform server q s
    (replyTo q g.level result, s)
  | .schema => (⟨0, Project.schemaText ++ "\n", ""⟩, s)
  | .help => (⟨0, usage, ""⟩, s)
  | .version => (⟨0, versionText, ""⟩, s)
  | .misuse => (⟨2, "", usage⟩, s)

end ReleaseInstaller.CommandLine
