import ReleaseInstaller.Text.Basic
import ReleaseInstaller.Text.Utf8
import ReleaseInstaller.Url.Domain

/-! Web addresses, read as a browser reads them. -/
namespace ReleaseInstaller
open Text

/-- The parts of an `http` or `https` address that a request goes by. -/
structure Url where
  /-- The host as written, without user name and port. -/
  host : List Char
  /-- The path, which begins with a slash. -/
  path : List Char
  query : Option (List Char)
  deriving DecidableEq, Repr

namespace Url

def isSlash (c : Char) : Bool := c == '/' || c == '\\'

/-- The path ends at a query or a fragment, and the host at a path, too. -/
def endsPath (c : Char) : Bool := c == '?' || c == '#'

def endsHost (c : Char) : Bool := isSlash c || endsPath c

def isControlOrSpace (c : Char) : Bool := c.toNat ≤ 0x20

/-- Characters that are no part of an address wherever they stand in it. -/
def isDropped (c : Char) : Bool := c == '\t' || c == '\n' || c == '\r'

/-- Characters that are escaped in every part of an address. -/
def escapedAnywhere (c : Char) : Bool :=
  c.toNat ≤ 0x20 || 0x7f ≤ c.toNat || c == '"' || c == '<' || c == '>' || c == '#'

def escapedInPath (c : Char) : Bool :=
  escapedAnywhere c || c == '`' || c == '?' || c == '\x7b' || c == '\x7d'

def escapedInQuery (c : Char) : Bool := escapedAnywhere c || c == '\''

/-- A segment that names the directory it stands in, with its dot plain or escaped. -/
def isHere (segment : List Char) : Bool :=
  dots.contains segment
where
  dots : List (List Char) := [['.'], "%2e".toList, "%2E".toList]

/-- A segment that names the directory above. -/
def isAbove (segment : List Char) : Bool :=
  isHere.dots.any fun a => isHere.dots.any fun b => segment == a ++ b

/-- Follows the segments one by one from the directory `above`, whose innermost part comes first. The
last segment names a file, so a step up or in place there leaves an empty name. -/
def resolveSegments (above : List (List Char)) : List (List Char) → List (List Char)
  | [] => above.reverse
  | [last] =>
    if isAbove last then ([] :: above.tail).reverse
    else if isHere last then ([] :: above).reverse
    else (last :: above).reverse
  | segment :: rest =>
    if isAbove segment then resolveSegments above.tail rest
    else if isHere segment then resolveSegments above rest
    else resolveSegments (segment :: above) rest

/-- The path of an address whose part between host and query is `s`. -/
def pathOf (s : List Char) : List Char :=
  let inner := match s with
    | c :: rest => if isSlash c then rest else s
    | [] => []
  let segments := resolveSegments [] (splitAtAll isSlash inner)
  segments.flatMap fun segment => '/' :: percentEncode escapedInPath segment

/-- Signs that no name of a host has. -/
def forbiddenSigns : List Char :=
  ['%', '#', '/', ':', '<', '>', '?', '@', '[', '\\', ']', '^', '|']

/-- Characters that no name of a host has. -/
def isForbidden (c : Char) : Bool :=
  c.toNat ≤ 0x20 || c.toNat == 0x7f || forbiddenSigns.contains c

/-- Whether a host may be written like this: a number in square brackets, or a name without forbidden
characters, which may be escaped. Whether there is such a name is not asked. -/
def isHost (s : List Char) : Bool :=
  s.head? == some '[' ||
    (ofUtf8? (percentDecode s)).any fun name => name.toList.all fun c => !isForbidden c

/-- The text after the last `@`, if there is one. -/
def withoutUser (authority : List Char) : List Char :=
  (authority.reverse.takeWhile (· ≠ '@')).reverse

/-- Whether a port may be written like this: digits, and no more than 65535. -/
def isPort (s : List Char) : Bool :=
  s.all Char.isDigit && s.foldl (fun n c => 10 * n + (c.toNat - 0x30)) 0 ≤ 65535

/-- The host and what follows it up to the path; a colon in square brackets is part of the host. -/
def splitPort (inBrackets : Bool) : List Char → List Char × List Char
  | [] => ([], [])
  | c :: rest =>
    if c = ':' ∧ !inBrackets then ([], rest)
    else
      let (host, port) := splitPort (c == '[' || (inBrackets && c != ']')) rest
      (c :: host, port)

/-- The address without the characters that do not count in it. -/
def cleaned (text : List Char) : List Char :=
  (dropEndWhile isControlOrSpace (text.dropWhile isControlOrSpace)).filter fun c => !isDropped c

/-- The schemes of the web, as they are compared: in small letters. -/
def schemes : List (List Char) := ["https".toList, "http".toList]

/-- What follows the scheme and its colon. Capitals count as small letters in a scheme. -/
def afterScheme? (s : List Char) : Option (List Char) := do
  let (scheme, rest) ← splitOnce? ':' s
  guard (schemes.contains (scheme.map Char.toLower))
  return rest

/-- The host and the port of an address that goes on with `rest` behind the first slashes. -/
def splitHost (rest : List Char) : List Char × List Char :=
  splitPort false (withoutUser (rest.takeWhile fun c => !endsHost c))

def queryOf? (rest : List Char) : Option (List Char) :=
  match rest.dropWhile fun c => !endsPath c with
  | '?' :: q => some (percentEncode escapedInQuery (q.takeWhile (· ≠ '#')))
  | _ => none

/-- Reads what is behind the first slashes of an address. -/
def ofRest? (rest : List Char) : Option Url := do
  let (host, port) := splitHost rest
  guard (!host.isEmpty && isHost host && isPort port)
  let rest := rest.dropWhile fun c => !endsHost c
  return ⟨host, pathOf (rest.takeWhile fun c => !endsPath c), queryOf? rest⟩

/-- Reads an address that begins with `http:` or `https:`. -/
def parse? (text : List Char) : Option Url := do
  ofRest? ((← afterScheme? (cleaned text)).dropWhile isSlash)

/-- The host in plain ASCII, if it has that form. -/
def domain? (u : Url) : Option (List Char) :=
  (ofUtf8? (percentDecode u.host)).bind fun name => asciiDomain? name.toList

/-- The part of the address that a request names. -/
def requestTarget (u : Url) : String :=
  String.ofList (u.path ++ match u.query with
    | some q => '?' :: q
    | none => [])

end Url

end ReleaseInstaller
