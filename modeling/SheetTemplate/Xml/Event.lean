import SheetTemplate.Text.Numeral
/-!
Events of an XML text: tags, pieces of text and all else. A stream of events ends when the text
ends, or with `broken` at the place where it stops being XML.
-/
namespace SheetTemplate.Xml

/-- A thing in an XML text. Attributes and texts are kept as written. -/
inductive Event where
  | opening (name : String) (attributes : List Char)
  | selfClosing (name : String) (attributes : List Char)
  | closing (name : String)
  | text (raw : List Char)
  /-- A comment, a character data section, a declaration or an instruction. -/
  | other
  | broken
deriving DecidableEq

def isSpace (c : Char) : Bool :=
  c = ' ' || c = '\t' || c = '\n' || c = '\r'

def localName (name : String) : String :=
  match name.toList.dropWhile (· ≠ ':') with
  | [] => name
  | _ :: rest => String.ofList rest

/-- The character that an entity between `&` and `;` stands for. Apart from the five named ones,
characters are given by number. -/
def entity? (name : List Char) : Option Char :=
  match name with
  | '#' :: 'x' :: ds => ofCode? (Text.natural? 16 ds)
  | '#' :: ds => ofCode? (Text.natural? 10 ds)
  | _ =>
    ([("lt", '<'), ("gt", '>'), ("amp", '&'), ("apos", '\''), ("quot", '"')].find? fun e =>
      e.1.toList = name).map (·.2)
where
  /-- The character with a number other than zero. -/
  ofCode? (code : Option Nat) : Option Char :=
    (code.filter fun n => 0 < n ∧ n.isValidChar).map Char.ofNat

/-- Text with its entities replaced, given the name of the entity that it is in the middle of,
reversed. -/
def decode? : Option (List Char) → List Char → Option (List Char)
  | none, [] => some []
  | some _, [] => none
  | none, c :: cs => if c = '&' then decode? (some []) cs else (decode? none cs).map (c :: ·)
  | some name, c :: cs =>
    if c = ';' then
      match entity? name.reverse with
      | some x => (decode? none cs).map (x :: ·)
      | none => none
    else if c = '&' then none
    else decode? (some (c :: name)) cs

/-- Text with its entities replaced, if all of them are known. -/
def unescape? (raw : List Char) : Option String :=
  (decode? none raw).map String.ofList

/-- An attribute as written, or the place where the attributes stop being well formed. -/
inductive Attribute where
  | pair (name : String) (raw : List Char)
  | malformed
deriving DecidableEq

/-- The attributes of a tag, up to the first that is malformed or has the name of an earlier one,
and at most as many as given. -/
def attributesFrom (seen : List String) : Nat → List Char → List Attribute
  | 0, _ => []
  | fuel + 1, cs =>
    match cs.dropWhile isSpace with
    | [] => []
    | c :: cs =>
      let name := String.ofList (c :: cs.takeWhile fun x => x ≠ '=' && !isSpace x)
      match (cs.dropWhile fun x => x ≠ '=' && !isSpace x).dropWhile isSpace with
      | '=' :: rest =>
        if seen.contains name then [.malformed]
        else
          match rest.dropWhile isSpace with
          | q :: value =>
            if q = '"' || q = '\'' then
              match value.dropWhile (· ≠ q) with
              | _ :: rest =>
                .pair name (value.takeWhile (· ≠ q)) :: attributesFrom (name :: seen) fuel rest
              | [] => [.malformed]
            else [.malformed]
          | [] => [.malformed]
      | _ => [.malformed]

def attributes (raw : List Char) : List Attribute :=
  attributesFrom [] raw.length raw

end SheetTemplate.Xml
