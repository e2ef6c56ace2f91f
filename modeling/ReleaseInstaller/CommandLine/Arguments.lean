import ReleaseInstaller.Generation.Run

/-! The arguments of the program. Options may stand before and after the file, and short ones in one
word; none may be given twice. -/
namespace ReleaseInstaller.CommandLine
open Text

inductive Level where
  | off | error | warn | info | debug | trace
  deriving DecidableEq, Repr

def Level.ofName? : String → Option Level
  | "off" => some off
  | "error" => some error
  | "warn" => some warn
  | "info" => some info
  | "debug" => some debug
  | "trace" => some trace
  | _ => none

/-- Options with a value. -/
inductive Setting where
  | repo | configName | output | verbosity
  deriving DecidableEq, Repr

inductive Flag where
  | force | check | noTimestamp | help | version
  deriving DecidableEq, Repr

inductive Switch where
  | setting (s : Setting)
  | flag (f : Flag)
  deriving DecidableEq, Repr

def Switch.ofLong? : String → Option Switch
  | "repo" => some (.setting .repo)
  | "config-name" => some (.setting .configName)
  | "output" => some (.setting .output)
  | "verbose" => some (.setting .verbosity)
  | "force" => some (.flag .force)
  | "check" => some (.flag .check)
  | "no-timestamp" => some (.flag .noTimestamp)
  | "help" => some (.flag .help)
  | "version" => some (.flag .version)
  | _ => none

def Switch.ofShort? : Char → Option Switch
  | 'r' => some (.setting .repo)
  | 'o' => some (.setting .output)
  | 'v' => some (.setting .verbosity)
  | 'f' => some (.flag .force)
  | 'h' => some (.flag .help)
  | 'V' => some (.flag .version)
  | _ => none

/-- Where arguments stand: after a command, or where the command is not named. -/
inductive Scope where
  | unnamed | generate | schema
  deriving DecidableEq, Repr

def Scope.allows (s : Scope) (w : Switch) : Bool :=
  match s with
  | unnamed => true
  | generate => w ≠ .flag .version
  | schema => w = .setting .verbosity || w = .flag .help

/-- The arguments read so far. -/
structure Given where
  settings : List (Setting × String)
  flags : List Flag
  file : Option String
  deriving Repr

def Given.nothing : Given := ⟨[], [], none⟩

/-- Why reading stops before the end. -/
inductive Stop where
  | misuse | help | version
  deriving DecidableEq, Repr

def addSetting (g : Given) (s : Setting) (value : String) : Except Stop Given :=
  if (g.settings.lookup s).isSome || (s == .verbosity && (Level.ofName? value).isNone) then
    .error .misuse
  else .ok { g with settings := (s, value) :: g.settings }

/-- Adds a flag; some are an answer by themselves. -/
def addFlag (g : Given) (f : Flag) : Except Stop Given :=
  if f = .help then .error .help
  else if f = .version then .error .version
  else if f ∈ g.flags then .error .misuse
  else .ok { g with flags := f :: g.flags }

def addFile (scope : Scope) (g : Given) (path : String) : Except Stop Given :=
  if scope = .schema || g.file.isSome then .error .misuse else .ok { g with file := some path }

/-- An argument that can be a value or a file: it does not begin like an option. -/
def isOperand (argument : String) : Bool := argument = "-" || !argument.startsWith "-"

/-- Reads a word of short options. Gives the setting whose value is still to come, if there is one. -/
def shortWord (scope : Scope) (g : Given) : List Char → Except Stop (Given × Option Setting)
  | [] => .ok (g, none)
  | c :: rest =>
    match (Switch.ofShort? c).filter scope.allows with
    | none => .error .misuse
    | some (.flag f) => do shortWord scope (← addFlag g f) rest
    | some (.setting s) =>
      match rest with
      | [] => .ok (g, some s)
      | '=' :: value | value => return (← addSetting g s (String.ofList value), none)

/-- Reads a long option without its dashes. -/
def longWord (scope : Scope) (g : Given) (word : List Char) :
    Except Stop (Given × Option Setting) :=
  let (name, value) :=
    match splitOnce? '=' word with
    | some (name, value) => (name, some value)
    | none => (word, none)
  match (Switch.ofLong? (String.ofList name)).filter scope.allows, value with
  | none, _ => .error .misuse
  | some (.flag f), none => return (← addFlag g f, none)
  | some (.flag _), some _ => .error .misuse
  | some (.setting s), none => .ok (g, some s)
  | some (.setting s), some value => return (← addSetting g s (String.ofList value), none)

/-- Reads arguments; `pending` is the setting whose value comes next. -/
def readAll (scope : Scope) (g : Given) (pending : Option Setting) :
    List String → Except Stop Given
  | [] => if pending.isSome then .error .misuse else .ok g
  | argument :: rest =>
    if isOperand argument then do
      let g ← match pending with
        | some s => addSetting g s argument
        | none => addFile scope g argument
      readAll scope g none rest
    else if pending.isSome then .error .misuse
    else if argument = "--" then rest.foldlM (addFile scope) g
    else do
      let (g, pending) ← match argument.toList with
        | '-' :: '-' :: word => longWord scope g word
        | _ :: word => shortWord scope g word
        | [] => .ok (g, none)
      readAll scope g pending rest

/-- A check needs an output, and nothing is forced in it. -/
def isConsistent (g : Given) : Bool :=
  !g.flags.contains .check ||
    ((g.settings.lookup .output).isSome && !g.flags.contains .force)

def readFor (scope : Scope) (arguments : List String) : Except Stop Given := do
  let g ← readAll scope .nothing none arguments
  if isConsistent g then return g else throw .misuse

inductive Command where
  | generate (g : Given)
  | schema
  | help
  | version
  | misuse
  deriving Repr

def Command.ofStop : Stop → Command
  | .misuse => misuse
  | .help => help
  | .version => version

/-- The command that the arguments name. Only the first one can be the name of a command. -/
def Command.ofArguments : List String → Command
  | "help" :: rest =>
    if rest ∈ [[], ["generate"], ["config-schema"], ["help"]] then help else misuse
  | "config-schema" :: rest =>
    match readFor .schema rest with
    | .ok _ => schema
    | .error stop => ofStop stop
  | "generate" :: rest => ofReading (readFor .generate rest)
  | arguments => ofReading (readFor .unnamed arguments)
where
  ofReading : Except Stop Given → Command
    | .ok g => generate g
    | .error stop => ofStop stop

namespace Given

/-- What is asked for, at a time. -/
def request (g : Given) (now : String) : Generation.Request where
  file := g.file
  repo := g.settings.lookup .repo
  configName := g.settings.lookup .configName
  output := g.settings.lookup .output
  force := g.flags.contains .force
  check := g.flags.contains .check
  generatedAt := if g.flags.contains .noTimestamp then none else some now

def level (g : Given) : Level :=
  ((g.settings.lookup .verbosity).bind Level.ofName?).getD .warn

end Given

end ReleaseInstaller.CommandLine
