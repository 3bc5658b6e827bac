import SheetTemplate.Text.Blank
import SheetTemplate.Xml.Event
/-!
The events of an XML text, and the two ways in which they are read. A tolerant reader goes on as
long as no tag closes that none opened; a strict reader also wants the names of the tags to match
and drops the white space around texts.
-/
namespace SheetTemplate.Xml

def cutAt? (mark : List Char) : List Char → Option (List Char × List Char)
  | [] => none
  | c :: cs =>
    if mark.isPrefixOf (c :: cs) then some ([], (c :: cs).drop mark.length)
    else (cutAt? mark cs).map fun (before, after) => (c :: before, after)

/-- The inside of a tag up to its closing bracket, and what follows. Brackets in quotes do not
count. -/
def insideTag? (quote : Option Char) : List Char → Option (List Char × List Char)
  | [] => none
  | c :: cs =>
    let add (r : List Char × List Char) : List Char × List Char := (c :: r.1, r.2)
    match quote with
    | some q => (insideTag? (if c = q then none else some q) cs).map add
    | none =>
      if c = '>' then some ([], cs)
      else (insideTag? (if c = '"' || c = '\'' then some c else none) cs).map add

/-- What follows a document type, which has a name and may hold brackets in pairs. -/
def afterDoctype? (depth : Nat) : List Char → Option (List Char)
  | [] => none
  | c :: cs =>
    if c = '<' then afterDoctype? (depth + 1) cs
    else if c = '>' then if depth = 0 then some cs else afterDoctype? (depth - 1) cs
    else afterDoctype? depth cs

def tagOf (inside : List Char) : Event :=
  let split (cs : List Char) : String × List Char :=
    (String.ofList (cs.takeWhile fun c => !isSpace c), cs.dropWhile fun c => !isSpace c)
  if inside.getLast? = some '/' then
    let (name, attributes) := split inside.dropLast
    .selfClosing name attributes
  else
    let (name, attributes) := split inside
    .opening name attributes

def closingOf (inside : List Char) : Event :=
  .closing (String.ofList (inside.reverse.dropWhile isSpace).reverse)

def markup? (cs : List Char) : Option (Event × List Char) :=
  match cs with
  | '!' :: '-' :: '-' :: rest => (cutAt? "-->".toList rest).map fun r => (.other, r.2)
  | '!' :: '[' :: 'C' :: 'D' :: 'A' :: 'T' :: 'A' :: '[' :: rest =>
    (cutAt? "]]>".toList rest).map fun r => (.other, r.2)
  | '!' :: d :: rest =>
    if (d :: rest.take 6).map Char.toUpper = "DOCTYPE".toList then
      match (rest.drop 6).dropWhile isSpace with
      | '>' :: _ => none
      | rest => (afterDoctype? 0 rest).map (.other, ·)
    else none
  | '!' :: [] => none
  | '?' :: '>' :: _ => none
  | '?' :: rest => (cutAt? "?>".toList rest).map fun r => (.other, r.2)
  | '/' :: rest => (cutAt? ['>'] rest).map fun r => (closingOf r.1, r.2)
  | _ => (insideTag? none cs).map fun r => (tagOf r.1, r.2)

def eventsFrom : Nat → List Char → List Event
  | 0, _ => []
  | _, [] => []
  | fuel + 1, c :: cs =>
    if c = '<' then
      match markup? cs with
      | some (e, rest) => e :: eventsFrom fuel rest
      | none => [.broken]
    else
      .text ((c :: cs).takeWhile (· ≠ '<'))
        :: eventsFrom fuel ((c :: cs).dropWhile (· ≠ '<'))

/-- The events of a text. A byte order mark at its beginning does not count. -/
def events (s : String) : List Event :=
  let cs := match s.toList with
    | '\ufeff' :: cs => cs
    | cs => cs
  eventsFrom cs.length cs

/-- Events as a tolerant reader sees them, given the number of open tags: empty tags open and
close, and a tag that closes nothing breaks the text. -/
def tolerant (depth : Nat) : List Event → List Event
  | [] => []
  | .opening name attributes :: rest => .opening name attributes :: tolerant (depth + 1) rest
  | .selfClosing name attributes :: rest =>
    .opening name attributes :: .closing name :: tolerant depth rest
  | .closing name :: rest =>
    if depth = 0 then [.broken] else .closing name :: tolerant (depth - 1) rest
  | e :: rest => e :: tolerant depth rest

def strict (opened : List String) : List Event → List Event
  | [] => []
  | .opening name attributes :: rest => .opening name attributes :: strict (name :: opened) rest
  | .closing name :: rest =>
    match opened with
    | [] => [.broken]
    | top :: opened => if name = top then .closing name :: strict opened rest else [.broken]
  | .text raw :: rest =>
    let trimmed := Text.stripBoth isSpace raw
    if trimmed.isEmpty then strict opened rest else .text trimmed :: strict opened rest
  | e :: rest => e :: strict opened rest

def tolerantEvents (s : String) : List Event :=
  tolerant 0 (events s)

def strictEvents (s : String) : List Event :=
  strict [] (events s)

end SheetTemplate.Xml
