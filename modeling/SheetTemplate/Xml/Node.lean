import SheetTemplate.Xml.Event
import SheetTemplate.Xml.Fields
/-!
Trees of elements and texts, their text, and their events. Every element is written with both its
tags, also one without children.
-/
namespace SheetTemplate.Xml

/-- An element or a piece of text. -/
inductive Node where
  | element (name : String) (fields : Fields) (children : List Node)
  | text (s : String)

/-- The entity for a character that markup would take for its own. -/
def entityOf (c : Char) : List Char :=
  if c = '&' then "&amp;".toList
  else if c = '<' then "&lt;".toList
  else if c = '>' then "&gt;".toList
  else if c = '"' then "&quot;".toList
  else if c = '\n' then "&#xA;".toList
  else [c]

def escape (marks : List Char) (cs : List Char) : List Char :=
  cs.flatMap fun c => if marks.contains c then entityOf c else [c]

def escapeText (s : String) : List Char :=
  escape ['&', '<', '>'] s.toList

def escapeValue (s : String) : List Char :=
  escape ['&', '<', '>', '"', '\n'] s.toList

def Fields.chars (fields : Fields) : List Char :=
  fields.flatMap fun (name, value) =>
    ' ' :: name.toList ++ '=' :: '"' :: escapeValue value ++ ['"']

mutual

def Node.chars : Node → List Char
  | .text s => escapeText s
  | .element name fields children =>
    '<' :: name.toList ++ fields.chars ++ '>' :: charsOfAll children ++ '<' :: '/' :: name.toList
      ++ ['>']

def charsOfAll : List Node → List Char
  | [] => []
  | n :: rest => n.chars ++ charsOfAll rest

end

mutual

/-- The events of a tree. An empty piece of text is none. -/
def Node.events : Node → List Event
  | .text s => if s.isEmpty then [] else [.text (escapeText s)]
  | .element name fields children =>
    .opening name fields.chars :: eventsOfAll children ++ [.closing name]

def eventsOfAll : List Node → List Event
  | [] => []
  | n :: rest => n.events ++ eventsOfAll rest

end

def declaration : List Char :=
  "<?xml version=\"1.0\" encoding=\"UTF-8\" standalone=\"yes\"?>\n".toList

def document (root : Node) : String :=
  String.ofList (declaration ++ root.chars)

def Node.leaf (name : String) (fields : Fields) : Node :=
  .element name fields []

def Node.holding (name : String) (fields : Fields) (s : String) : Node :=
  .element name fields [.text s]

end SheetTemplate.Xml
