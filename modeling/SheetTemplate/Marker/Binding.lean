import SheetTemplate.Marker.Scan
/-!
Which list a row repeats over: the one that all element markers of the row's texts name.
-/
namespace SheetTemplate

/-- How the element markers of a row agree on a key. -/
inductive Binding where
  /-- There is no element marker. -/
  | free
  /-- All of them have this key. -/
  | bound (key : String)
  /-- The first of them has one key, and a later one another. -/
  | mixed (first second : String)
deriving DecidableEq

namespace Binding

/-- The binding of a row of keys; of the keys that differ from the first, the first counts. -/
def ofKeys : List String → Binding
  | [] => free
  | first :: rest =>
    match rest.find? (· ≠ first) with
    | none => bound first
    | some second => mixed first second

def keysOf (texts : List String) : List String :=
  texts.flatMap fun s => (markersOf [.element] s).map Marker.key

def ofTexts (texts : List String) : Binding :=
  ofKeys (keysOf texts)

end Binding

end SheetTemplate
