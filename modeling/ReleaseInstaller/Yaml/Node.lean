import ReleaseInstaller.Yaml.Token

/-! YAML documents: trees of nodes, and the anchored nodes that references stand for. -/
namespace ReleaseInstaller.Yaml

inductive Node where
  | scalar (tag : Option String) (style : Style) (text : String)
  | sequence (items : List Node)
  | mapping (entries : List (Node × Node))
  /-- The anchored node with a number. -/
  | reference (number : Nat)
  deriving Repr, Inhabited

/-- The node that stands where nothing is written. -/
def Node.empty : Node := .scalar none .plain ""

/-- The one document of a text. -/
structure Document where
  root : Node
  /-- The anchored nodes under their numbers. A node may contain a reference to itself. -/
  anchored : List (Nat × Node)
  deriving Repr

/-- The tokens that are still to be read, and what the document has defined so far. -/
structure Reading where
  tokens : List Token
  /-- What the handles of tags stand for. -/
  handles : List (String × String)
  /-- The number that a name stands for; the latest use of a name comes first. -/
  anchors : List (String × Nat)
  anchored : List (Nat × Node)

abbrev Reader := StateT Reading Option

namespace Reader

/-- The next token. -/
def peek : Reader Token := do return (← get).tokens.head?.getD .streamEnd

def advance : Reader Unit := modify fun s => { s with tokens := s.tokens.drop 1 }

/-- Passes over a token that has to come next. -/
def expect (t : Token) : Reader Unit := do
  guard ((← peek) = t)
  advance

/-- The handles that need no directive. -/
def standardHandles : List (String × String) := [("!", "!"), ("!!", "tag:yaml.org,2002:")]

/-- Takes in directives: one version at most, and no handle twice. -/
def directives (steps : Nat) (versioned : Bool) (handles : List (String × String)) : Reader Unit := do
  match steps with
  | 0 => failure
  | n + 1 =>
    match ← peek with
    | .version major minor =>
      guard (!versioned && major = 1 && (minor = 1 || minor = 2))
      advance
      directives n true handles
    | .tagDirective handle lead =>
      guard (handles.lookup handle).isNone
      advance
      directives n versioned (handles ++ [(handle, lead)])
    | _ => modify fun s => { s with handles := handles ++ standardHandles }

/-- An anchor, if one comes next. -/
def anchor? : Reader (Option String) := do
  match ← peek with
  | .anchor name => advance; return some name
  | _ => return none

/-- The full text of a tag, if one comes next. -/
def tag? : Reader (Option String) := do
  match ← peek with
  | .tag handle suffix =>
    advance
    if handle.isEmpty then return some suffix
    else
      let some lead := (← get).handles.lookup handle | failure
      return some (lead ++ suffix)
  | _ => return none

/-- Anchor and tag of a node, in either order. -/
def properties : Reader (Option String × Option String) := do
  match ← anchor? with
  | some name => return (some name, ← tag?)
  | none =>
    match ← tag? with
    | some tag => return (← anchor?, some tag)
    | none => return (none, none)

/-- Gives a number to an anchor. -/
def number (name : String) : Reader Nat := do
  let s ← get
  let n := s.anchors.length
  set { s with anchors := (name, n) :: s.anchors }
  return n

mutual

/-- A node. Between brackets it is no block; as a key or value its entries may stand below a key
without indentation. -/
def node (steps : Nat) (block flat : Bool) : Reader Node := do
  match steps with
  | 0 => failure
  | n + 1 =>
    match ← peek with
    | .reference name =>
      advance
      let some k := (← get).anchors.lookup name | failure
      return .reference k
    | _ =>
      let (anchor, tag) ← properties
      let k ← anchor.mapM number
      let v ← content n block flat (anchor.isSome || tag.isSome) tag
      if let some k := k then
        modify fun s => { s with anchored := (k, v) :: s.anchored }
      return v

/-- A node after its properties. With properties it may be empty. -/
def content (steps : Nat) (block flat mayBeEmpty : Bool) (tag : Option String) : Reader Node := do
  match steps with
  | 0 => failure
  | n + 1 =>
    match ← peek, block with
    | .scalar style text, _ =>
      advance
      return .scalar (if tag = some "!" then none else tag) style text
    | .flowSequenceStart, _ => advance; return .sequence (← flowItems n true)
    | .flowMappingStart, _ => advance; return .mapping (← flowEntries n true)
    | .blockSequenceStart, true => advance; return .sequence (← blockItems n)
    | .blockMappingStart, true => advance; return .mapping (← blockEntries n)
    | t, _ =>
      if flat && t = .blockEntry then return .sequence (← flatItems n)
      else if mayBeEmpty then return .scalar tag .plain ""
      else failure

/-- A node, or the empty one where one of the given tokens comes next. -/
def nodeUnless (steps : Nat) (stops : List Token) (block flat : Bool) : Reader Node := do
  match steps with
  | 0 => failure
  | n + 1 => if (← peek) ∈ stops then return .empty else node n block flat

def blockItems (steps : Nat) : Reader (List Node) := do
  match steps with
  | 0 => failure
  | n + 1 =>
    match ← peek with
    | .blockEntry =>
      advance
      let item ← nodeUnless n [.blockEntry, .blockEnd] true false
      return item :: (← blockItems n)
    | .blockEnd => advance; return []
    | _ => failure

/-- The items of a sequence that stands at the column of its key. -/
def flatItems (steps : Nat) : Reader (List Node) := do
  match steps with
  | 0 => failure
  | n + 1 =>
    match ← peek with
    | .blockEntry =>
      advance
      let item ← nodeUnless n [.blockEntry, .key, .value, .blockEnd] true false
      return item :: (← flatItems n)
    | _ => return []

def blockEntries (steps : Nat) : Reader (List (Node × Node)) := do
  match steps with
  | 0 => failure
  | n + 1 =>
    match ← peek with
    | .key =>
      advance
      let key ← nodeUnless n [.key, .value, .blockEnd] true true
      let value ← value n [.key, .value, .blockEnd] true
      return (key, value) :: (← blockEntries n)
    | .blockEnd => advance; return []
    | _ => failure

/-- The value after a key, if the mark of a value comes next. -/
def value (steps : Nat) (stops : List Token) (block : Bool) : Reader Node := do
  match steps with
  | 0 => failure
  | n + 1 =>
    match ← peek with
    | .value => advance; nodeUnless n stops block block
    | _ => return .empty

def flowItems (steps : Nat) (isFirst : Bool) : Reader (List Node) := do
  match steps with
  | 0 => failure
  | n + 1 =>
    if (← peek) = .flowSequenceEnd then advance; return []
    else
      unless isFirst do expect .flowEntry
      match ← peek with
      | .flowSequenceEnd => advance; return []
      | .key =>
        advance
        let item ← pair n
        return item :: (← flowItems n false)
      | _ =>
        let item ← node n false false
        return item :: (← flowItems n false)

/-- A mapping of one entry among the items of a sequence. Where its key is empty, one token more is
passed over. -/
def pair (steps : Nat) : Reader Node := do
  match steps with
  | 0 => failure
  | n + 1 =>
    let key ←
      if (← peek) ∈ [.value, .flowEntry, .flowSequenceEnd] then do advance; pure .empty
      else node n false false
    return .mapping [(key, ← value n [.flowEntry, .flowSequenceEnd] false)]

def flowEntries (steps : Nat) (isFirst : Bool) : Reader (List (Node × Node)) := do
  match steps with
  | 0 => failure
  | n + 1 =>
    if (← peek) = .flowMappingEnd then advance; return []
    else
      unless isFirst do expect .flowEntry
      match ← peek with
      | .flowMappingEnd => advance; return []
      | .key =>
        advance
        let key ← nodeUnless n [.value, .flowEntry, .flowMappingEnd] false false
        let value ← value n [.flowEntry, .flowMappingEnd] false
        return (key, value) :: (← flowEntries n false)
      | _ =>
        let key ← node n false false
        return (key, .empty) :: (← flowEntries n false)

end

/-- Passes over the marks that end a document. -/
def documentEnds (steps : Nat) : Reader Unit := do
  match steps with
  | 0 => failure
  | n + 1 => if (← peek) = .documentEnd then advance; documentEnds n

/-- The root of the document; a text without any document stands for the empty node. -/
def root (steps : Nat) : Reader Node := do
  let r ←
    match ← peek with
    | .streamEnd => pure Node.empty
    | .documentStart | .version _ _ | .tagDirective _ _ =>
      directives steps false []
      expect .documentStart
      match ← peek with
      | .version _ _ | .tagDirective _ _ | .documentStart | .documentEnd | .streamEnd =>
        pure .empty
      | _ => node steps true false
    | _ =>
      modify fun s => { s with handles := standardHandles }
      node steps true false
  documentEnds steps
  expect .streamEnd
  return r

end Reader

/-- The document that a text holds; none if it is no YAML or holds more than one. -/
def Document.ofText? (text : String) : Option Document := do
  let tokens ← Token.ofText? text
  let (root, s) ← (Reader.root (4 * tokens.length + 4)).run ⟨tokens, [], [], []⟩
  return ⟨root, s.anchored⟩

/-- The node itself, or the one that it refers to. -/
def Document.resolve (d : Document) : Node → Node
  | .reference k => (d.anchored.lookup k).getD .empty
  | v => v

end ReleaseInstaller.Yaml
