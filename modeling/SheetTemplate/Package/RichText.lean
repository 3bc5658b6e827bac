import SheetTemplate.Package.Basic
/-!
Texts of a package: one piece, or several runs that are joined. Hints on pronunciation do not
count. The texts that cells share are numbered in the order of their part.
-/
namespace SheetTemplate

/-- A text while it is read. -/
inductive RichText where
  /-- Between pieces: the runs so far, if there are runs, and whether this is a hint. -/
  | between (runs : Option String) (hint : Bool)
  /-- In a piece: the runs so far, the name of its tag, and the piece so far. -/
  | inside (runs : Option String) (name : String) (piece : String)
  /-- After a text that is no run, with some tags of the closing name opened since. -/
  | after (text : String) (depth : Nat)

namespace RichText

/-- The text after one more event, or the finished text, which may be missing. The text ends with
a tag that closes `name`. -/
def readEvent? (name : String) (t : RichText) (e : Xml.Event) :
    Option (RichText ⊕ Option String) :=
  match t, e with
  | _, .broken => none
  | .between runs hint, .opening n _ =>
    match Xml.localName n with
    | "r" => some (.inl (.between (some (runs.getD "")) hint))
    | "rPh" => some (.inl (.between runs true))
    | "t" => some (.inl (if hint then .between runs hint else .inside runs n ""))
    | _ => some (.inl (.between runs hint))
  | .between runs hint, .closing n =>
    if n = name then some (.inr runs)
    else some (.inl (.between runs (hint && Xml.localName n ≠ "rPh")))
  | .inside runs tag piece, .text raw =>
    (Xml.unescape? raw).map fun s => .inl (.inside runs tag (piece ++ s))
  | .inside runs tag piece, .closing n =>
    if n = tag then
      match runs with
      | some sofar => some (.inl (.between (some (sofar ++ piece)) false))
      | none => some (.inl (.after piece 0))
    else some (.inl (.inside runs tag piece))
  | .after text depth, .opening n _ =>
    some (.inl (.after text (if n = name then depth + 1 else depth)))
  | .after text depth, .closing n =>
    if n ≠ name then some (.inl (.after text depth))
    else if depth = 0 then some (.inr (some text))
    else some (.inl (.after text (depth - 1)))
  | t, _ => some (.inl t)

/-- The shared texts while they are read: those so far, the latest first, and the open one with
its tag's name. -/
structure Reading where
  texts : List String := []
  current : Option (String × RichText) := none
  done : Bool := false

def readShared? (r : Reading) (e : Xml.Event) : Option Reading :=
  if r.done then some r
  else
    match r.current with
    | some (name, t) =>
      match readEvent? name t e with
      | none => none
      | some (.inl t) => some { r with current := some (name, t) }
      | some (.inr text) => some { r with current := none, texts := text.toList ++ r.texts }
    | none =>
      match e with
      | .broken => none
      | .opening name _ =>
        some (if Xml.localName name = "si" then
          { r with current := some (name, .between none false) }
        else r)
      | .closing name => some { r with done := Xml.localName name = "sst" }
      | _ => some r

/-- The shared texts of a package, none if there is no such part. The part has to reach its
end. -/
def ofPackage? (p : Package) : Option (List String) :=
  match p.tolerantEvents? "xl/sharedStrings.xml" with
  | none => some []
  | some events =>
    match events.foldlM readShared? {} with
    | some r => if r.done then some r.texts.reverse else none
    | none => none

end RichText

end SheetTemplate
