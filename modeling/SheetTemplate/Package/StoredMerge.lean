import SheetTemplate.Grid.Range
import SheetTemplate.Package.Basic
/-!
Merged regions as worksheet parts store them. All regions of all parts have to be readable; those
of the first list of a part are its sheet's.
-/
namespace SheetTemplate.StoredMerge

def corners? (name : String) (raw : List Char) : Option (Option (CellRef × CellRef)) :=
  if Xml.localName name = "mergeCell" then
    match Package.rawAttribute? "ref" (Xml.attributes raw) with
    | none => none
    | some none => some none
    | some (some reference) => (Package.corners? reference).map some
  else some none

/-- Every region in the part can be read, and the part to its end. -/
def readable (events : List Xml.Event) : Bool :=
  events.all fun
    | .broken => false
    | .opening name raw => (corners? name raw).isSome
    | _ => true

def untilEnd? : List Xml.Event → Option (List Range)
  | [] => none
  | .broken :: _ => none
  | .opening name raw :: rest =>
    match corners? name raw with
    | none => none
    | some none => untilEnd? rest
    | some (some (a, b)) => (untilEnd? rest).map (Range.ofCorners a b :: ·)
  | .closing name :: rest => if Xml.localName name = "mergeCells" then some [] else untilEnd? rest
  | _ :: rest => untilEnd? rest

/-- The regions of a part: none if their list does not end. -/
def ofEvents : List Xml.Event → List Range
  | [] => []
  | .opening name _ :: rest =>
    if Xml.localName name = "mergeCells" then (untilEnd? rest).getD [] else ofEvents rest
  | _ :: rest => ofEvents rest

end SheetTemplate.StoredMerge
