import Std.Time.Format
import ReleaseInstaller.CommandLine.Reply

/-! The program. It takes over what the command may look at on disk, runs it, and writes what the
command has written. Repositories are not fetched. -/
namespace ReleaseInstaller.Program
open CommandLine

/-- What is on disk under a name. -/
def entry? (path : String) : IO (Option Store.Entry) := do
  match ← (IO.FS.readBinFile path).toBaseIO with
  | .ok bytes =>
    return some (match String.fromUTF8? bytes with
      | some text => .text text
      | none => .binary bytes.toList)
  | .error (.noFileOrDirectory ..) => return none
  | .error _ => return some (.binary [])

/-- Takes over a file. -/
def takeOver (s : Store) (path : String) : IO Store := do
  match ← entry? path with
  | some e => return (s.write path e).toOption.getD s
  | none => return s

/-- The files that a command looks at. -/
def filesOf : Command → List String
  | .generate g => g.file.toList ++ (g.settings.lookup .output).toList
  | _ => []

def outputOf? : Command → Option String
  | .generate g => g.settings.lookup .output
  | _ => none

/-- Makes the directories on disk that a run has made. -/
def makeNew (before after : Store) : IO Unit := do
  for (p, e) in after.entries do
    if e = .directory ∧ before.find? p = none then IO.FS.createDirAll ("/".intercalate p)

/-- The time in the form of headings. -/
def now : IO String := do
  let time := Std.Time.DateTime.ofTimestampWithZone (← Std.Time.Timestamp.now) .UTC
  return time.format "uuuu-MM-dd'T'HH:mm:ss'Z'"

end ReleaseInstaller.Program

open ReleaseInstaller Program CommandLine in
def main (arguments : List String) : IO UInt32 := do
  let command := Command.ofArguments arguments
  let before ← (filesOf command).foldlM takeOver Store.empty
  let (reply, after) := run Remote.unreachable before (← now) arguments
  if before != after then
    makeNew before after
    if let some path := outputOf? command then
      if let some text := after.text? path then
        IO.FS.writeFile path text
  IO.print reply.stdout
  IO.eprint reply.stderr
  return UInt32.ofNat reply.exitCode
