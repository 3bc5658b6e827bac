import SheetTemplate.Yaml.Cursor
import SheetTemplate.Yaml.Token.Basic
import SheetTemplate.Text.Numeral
/-!
Anchors, tags and directives of a YAML text. Each of them lies within one line.
-/
namespace SheetTemplate.Yaml

/-- A character other than a name character that may stand in a tag, given whether it may be a
comma or a bracket. -/
def isTagChar (wide : Bool) (c : Char) : Bool :=
  isNameChar c || ";/?:@&=+$.!~*'()".toList.contains c || (wide && ",[]".toList.contains c)

/-- The bytes of percent escapes at the front, as many as their first one announces, and how many
more are expected. -/
def escapedBytes? : Nat → List Char → Option (List Nat)
  | 0, _ => some []
  | n + 1, '%' :: a :: b :: rest =>
    match Text.natural? 16 [a, b] with
    | none => none
    | some byte =>
      if byte / 64 = 2 then (escapedBytes? n rest).map (byte :: ·) else none
  | _ + 1, _ => none

def widthOfByte? (byte : Nat) : Option Nat :=
  if byte < 0x80 then some 1
  else if byte / 32 = 6 then some 2
  else if byte / 16 = 14 then some 3
  else if byte / 8 = 30 then some 4
  else none

def charOfBytes (first : Nat) (more : List Nat) : Char :=
  let n := more.foldl (fun n byte => n * 64 + byte % 64) first
  let least := [0, 0x80, 0x800, 0x10000].getD more.length 0
  if least ≤ n ∧ n.isValidChar then Char.ofNat n else '\ufffd'

/-- One character of a tag and the number of characters it is written with. Percent escapes spell
the bytes of a character. -/
def tagChar? (wide : Bool) : List Char → Option (Char × Nat)
  | '%' :: a :: b :: rest => do
    let byte ← Text.natural? 16 [a, b]
    let width ← widthOfByte? byte
    let more ← escapedBytes? (width - 1) rest
    let first := if width = 1 then byte else byte % twoTo (7 - width)
    return (charOfBytes first more, 3 * width)
  | c :: _ => if isTagChar wide c then some (c, 1) else none
  | [] => none

/-- The characters of a tag from the front, and the cursor after them. A percent sign has to
begin an escape. -/
def tagText? (wide : Bool) (c : Cursor) : Option (List Char × Cursor) :=
  go c.rest.length c
where
  /-- At most as many characters as given. -/
  go : Nat → Cursor → Option (List Char × Cursor)
    | 0, c => some ([], c)
    | fuel + 1, c =>
      match tagChar? wide c.rest with
      | some (x, n) => (go fuel (c.skip n)).map fun (cs, c) => (x :: cs, c)
      | none => if c.peek 0 = some '%' then none else some ([], c)

def nameText (c : Cursor) : List Char × Cursor :=
  let name := c.rest.takeWhile isNameChar
  (name, c.skip name.length)

def anchorName? (c : Cursor) : Option (List Char × Cursor) :=
  let (name, c) := nameText c
  let ended := endsWord (c.peek 0) || (c.peek 0).any fun x => "?:,]\x7d%@\x60".toList.contains x
  if name.isEmpty || !ended then none else some (name, c)

/-- A handle, which begins with an exclamation mark: a lone one, one before name characters, or
these between two of them. -/
def handle? (c : Cursor) : Option (List Char × Cursor) :=
  if c.peek 0 = some '!' then
    let (name, c) := nameText (c.skip 1)
    if c.peek 0 = some '!' then some ('!' :: (name ++ ['!']), c.skip 1)
    else some ('!' :: name, c)
  else none

/-- A tag: verbatim between angle brackets, or with a handle. A lone exclamation mark is a tag
without a handle. -/
def tag? (flow : Bool) (c : Cursor) : Option (TagName × Cursor) := do
  let (tag, c) ← written? c
  if endsWord (c.peek 0) || (flow && c.peek 0 = some ',') then some (tag, c) else none
where
  /-- The tag without a look at what follows. -/
  written? (c : Cursor) : Option (TagName × Cursor) := do
    if c.peek 1 = some '<' then
      let (suffix, c) ← tagText? true (c.skip 2)
      if suffix.isEmpty || c.peek 0 ≠ some '>' then none
      else return (⟨[], suffix⟩, c.skip 1)
    else
      let (handle, c) ← handle? c
      let (more, c) ← tagText? false c
      if 1 < handle.length ∧ handle.getLast? = some '!' then
        if more.isEmpty then none else return (⟨handle, more⟩, c)
      else
        let suffix := handle.drop 1 ++ more
        if suffix.isEmpty then return (⟨[], ['!']⟩, c) else return (⟨['!'], suffix⟩, c)

/-- A part of a version, of at most nine digits. -/
def versionPart? (c : Cursor) : Option (Nat × Cursor) :=
  let ds := c.rest.takeWhile Text.isDigit
  if 9 < ds.length then none
  else (Text.natural? 10 ds).map fun n => (n, c.skip ds.length)

def directive? (c : Cursor) : Option (Token × Cursor) := do
  let (name, c) := nameText c
  if name.isEmpty || !endsWord (c.peek 0) then none
  let (token, c) ← match String.ofList name with
    | "YAML" => do
      let (major, c) ← versionPart? c.skipBlanks
      if c.peek 0 ≠ some '.' then none
      let (minor, c) ← versionPart? (c.skip 1)
      some (Token.version major minor, c)
    | "TAG" => do
      let (handle, c) ← handle? c.skipBlanks
      if handle.getLast? ≠ some '!' || !(c.peek 0).any isBlank then none
      let (expansion, c) ← tagText? true c.skipBlanks
      if expansion.isEmpty || !endsWord (c.peek 0) then none
      some (Token.tagDirective handle expansion, c)
    | _ => none
  return (token, ← c.endLine?)

end SheetTemplate.Yaml
