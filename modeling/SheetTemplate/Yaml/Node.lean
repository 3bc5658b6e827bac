import SheetTemplate.Yaml.Token.Lexer
/-!
The node of a YAML document, from its tokens. Anchors become numbers: a name gets the number of
names seen so far, also when it is used again, so that two nodes may end up with one number, of
which the later one counts.
-/
namespace SheetTemplate.Yaml

abbrev Tag := List Char

inductive Node where
  | alias (id : Nat)
  | scalar (anchor : Option Nat) (tag : Option Tag) (form : ScalarForm) (text : List Char)
  | sequence (anchor : Option Nat) (tag : Option Tag) (items : List Node)
  | mapping (anchor : Option Nat) (tag : Option Tag) (entries : List (Node × Node))
deriving Inhabited

/-- What is left of the tokens, and what is known by name. -/
structure Composer where
  tokens : List Token
  /-- Numbers of the anchors, the latest first. -/
  anchors : List (List Char × Nat) := []
  /-- What the handles of tags stand for. -/
  handles : List (List Char × List Char) := []

abbrev Compose := StateT Composer Option

namespace Compose

def peek : Compose (Option Token) := do
  return (← get).tokens.head?

def skip : Compose Unit :=
  modify fun s => { s with tokens := s.tokens.drop 1 }

def isNext (ts : List Token) : Compose Bool := do
  return (← peek).any ts.contains

def expect (t : Token) : Compose Unit := do
  if ← isNext [t] then skip else failure

def anchorNumber (name : List Char) : Compose Nat := do
  match (← get).anchors.find? fun e => e.1 = name with
  | some (_, id) => return id
  | none => failure

def newAnchor : Option (List Char) → Compose (Option Nat)
  | none => return none
  | some name => do
    let s ← get
    let id := s.anchors.length
    set { s with anchors := (name, id) :: s.anchors.filter fun e => e.1 ≠ name }
    return some id

def resolveTag (t : TagName) : Compose Tag := do
  if t.handle.isEmpty then return t.suffix
  match (← get).handles.find? fun e => e.1 = t.handle with
  | some (_, expansion) => return expansion ++ t.suffix
  | none => failure

def properties : Compose (Option (List Char) × Option TagName) := do
  match ← peek with
  | some (.anchor name) =>
    skip
    match ← peek with
    | some (.tag tag) => skip; return (some name, some tag)
    | _ => return (some name, none)
  | some (.tag tag) =>
    skip
    match ← peek with
    | some (.anchor name) => skip; return (some name, some tag)
    | _ => return (none, some tag)
  | _ => return (none, none)

def missing : Node := .scalar none none .plain []

mutual

/-- A node. Outside brackets it may be a block; the value of a key may be a block sequence that is
not indented. -/
def node (block indentless : Bool) : Nat → Compose Node
  | 0 => failure
  | fuel + 1 => do
    match ← peek with
    | some (.alias name) =>
      skip
      return .alias (← anchorNumber name)
    | _ =>
      let (name, tagName) ← properties
      let tag ← tagName.mapM resolveTag
      match ← peek with
      | some (.scalar form text) =>
        skip
        return .scalar (← newAnchor name) (tag.filter (· ≠ ['!'])) form text
      | some .sequenceOpen =>
        skip
        return .sequence (← newAnchor name) tag (← flowItems true fuel)
      | some .mappingOpen =>
        skip
        return .mapping (← newAnchor name) tag (← flowEntries true fuel)
      | some .entry =>
        if indentless then return .sequence (← newAnchor name) tag (← indentlessItems fuel)
        else propertiesOnly name tag
      | some .blockSequence =>
        if !block then propertiesOnly name tag
        else
          skip
          return .sequence (← newAnchor name) tag (← blockItems fuel)
      | some .blockMapping =>
        if !block then propertiesOnly name tag
        else
          skip
          return .mapping (← newAnchor name) tag (← blockEntries fuel)
      | _ => propertiesOnly name tag
where
  /-- A node of which only the anchor or the tag is written. -/
  propertiesOnly (name : Option (List Char)) (tag : Option Tag) : Compose Node := do
    if name.isNone && tag.isNone then failure
    return .scalar (← newAnchor name) tag .plain []

def nodeUnless (ends : List Token) (block indentless : Bool) : Nat → Compose Node
  | 0 => failure
  | fuel + 1 => do
    if ← isNext ends then return missing else node block indentless fuel

def blockItems : Nat → Compose (List Node)
  | 0 => failure
  | fuel + 1 => do
    if ← isNext [.blockEnd] then
      skip
      return []
    expect .entry
    let item ← nodeUnless [.entry, .blockEnd] true false fuel
    return item :: (← blockItems fuel)

def indentlessItems : Nat → Compose (List Node)
  | 0 => failure
  | fuel + 1 => do
    if ← isNext [.entry] then
      skip
      let item ← nodeUnless [.entry, .key, .value, .blockEnd] true false fuel
      return item :: (← indentlessItems fuel)
    else return []

def blockEntries : Nat → Compose (List (Node × Node))
  | 0 => failure
  | fuel + 1 => do
    if ← isNext [.blockEnd] then
      skip
      return []
    expect .key
    let ends := [.key, .value, .blockEnd]
    let key ← nodeUnless ends true true fuel
    let value ← valueUnless ends true fuel
    return (key, value) :: (← blockEntries fuel)

def valueUnless (ends : List Token) (block : Bool) : Nat → Compose Node
  | 0 => failure
  | fuel + 1 => do
    if ← isNext [.value] then
      skip
      nodeUnless ends block block fuel
    else return missing

/-- Items of a bracketed sequence to its end. An item may be a single entry of a mapping; if its
key is not written, the token after the question mark is passed over. -/
def flowItems (first : Bool) : Nat → Compose (List Node)
  | 0 => failure
  | fuel + 1 => do
    if ← isNext [.sequenceClose] then
      skip
      return []
    if !first then expect .comma
    if ← isNext [.sequenceClose] then
      skip
      return []
    let ends := [.comma, .sequenceClose]
    if ← isNext [.key] then
      skip
      let unwritten ← isNext (.value :: ends)
      if unwritten then skip
      let key ← if unwritten then pure missing else node false false fuel
      let value ← valueUnless ends false fuel
      return .mapping none none [(key, value)] :: (← flowItems false fuel)
    else
      let item ← node false false fuel
      return item :: (← flowItems false fuel)

def flowEntries (first : Bool) : Nat → Compose (List (Node × Node))
  | 0 => failure
  | fuel + 1 => do
    if ← isNext [.mappingClose] then
      skip
      return []
    if !first then expect .comma
    if ← isNext [.mappingClose] then
      skip
      return []
    let ends := [.comma, .mappingClose]
    if ← isNext [.key] then
      skip
      let key ← nodeUnless (.value :: ends) false false fuel
      let value ← valueUnless ends false fuel
      return (key, value) :: (← flowEntries false fuel)
    else
      let key ← node false false fuel
      return (key, missing) :: (← flowEntries false fuel)

end

/-- Directives in front of a document: at most one version, which has to be 1.1 or 1.2, and
handles that differ from each other. -/
def directives (version : Bool) (handles : List (List Char × List Char)) :
    List Token → Option (List (List Char × List Char) × List Token)
  | .version major minor :: rest =>
    if version || major ≠ 1 || !(minor = 1 || minor = 2) then none
    else directives true handles rest
  | .tagDirective handle expansion :: rest =>
    if handles.any fun e => e.1 = handle then none
    else directives version (handles ++ [(handle, expansion)]) rest
  | rest => some (handles, rest)

def standardHandles : List (List Char × List Char) :=
  [("!".toList, "!".toList), ("!!".toList, "tag:yaml.org,2002:".toList)]

def isDocumentToken : Token → Bool
  | .version _ _ => true
  | .tagDirective _ _ => true
  | .documentStart => true
  | .documentEnd => true
  | _ => false

def content (fuel : Nat) : Compose Node := do
  if (← peek).all isDocumentToken then return missing else node true false fuel

/-- The only document of a text, if there is any. Each level of a node uses up a token. -/
def document? (ts : List Token) : Option (Option Node) := do
  let fuel := 4 * ts.length + 8
  let finish (c : Compose Node) (handles : List (List Char × List Char)) (rest : List Token) :
      Option (Option Node) := do
    let (node, s) ← c.run { tokens := rest, handles := handles ++ standardHandles }
    if s.tokens.all (· = .documentEnd) then some (some node) else none
  match ts with
  | [] => some none
  | .documentEnd :: _ => none
  | t :: _ =>
    if isDocumentToken t then
      match ← directives false [] ts with
      | (handles, .documentStart :: rest) => finish (content fuel) handles rest
      | _ => none
    else finish (node true false fuel) [] ts

end Compose

namespace Node

def anchor? : Node → Option Nat
  | .alias _ => none
  | .scalar anchor _ _ _ => anchor
  | .sequence anchor _ _ => anchor
  | .mapping anchor _ _ => anchor

mutual

def all : Node → List Node
  | .alias id => [.alias id]
  | .scalar anchor tag form text => [.scalar anchor tag form text]
  | .sequence anchor tag items => .sequence anchor tag items :: allOf items
  | .mapping anchor tag entries => .mapping anchor tag entries :: allOfEntries entries

def allOf : List Node → List Node
  | [] => []
  | n :: rest => all n ++ allOf rest

def allOfEntries : List (Node × Node) → List Node
  | [] => []
  | (k, v) :: rest => all k ++ (all v ++ allOfEntries rest)

end

/-- Number of things that begin or end at a node: a collection does both. -/
def events : Node → Nat
  | .alias _ => 1
  | .scalar _ _ _ _ => 1
  | .sequence _ _ _ => 2
  | .mapping _ _ _ => 2

def ofText? (s : String) : Option (Option Node) :=
  (tokens? s).bind Compose.document?

end Node

end SheetTemplate.Yaml
