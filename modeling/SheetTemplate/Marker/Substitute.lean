import SheetTemplate.Marker.Scan
import SheetTemplate.Data.Path
import SheetTemplate.Data.Json
/-!
Writing data into a text. Each marker is replaced by the text of the value that it leads to; a
marker that leads nowhere stays as it is. Text that comes from the data is not scanned.
-/
namespace SheetTemplate

def substituteChars (scopes : List Scope) (fill? : Marker → Option String) (cs : List Char) :
    List Char :=
  (pieces scopes cs).flatMap fun
    | .plain c => [c]
    | .marker m =>
      match fill? m with
      | some s => s.toList
      | none => m.raw

def substitute (scopes : List Scope) (fill? : Marker → Option String) (s : String) : String :=
  String.ofList (substituteChars scopes fill? s.toList)

namespace Data

def rootText? (root : Data) (m : Marker) : Option String :=
  (root.resolve? m.path).map render

/-- What an element marker with the given key shows of an element. Without a property it shows
the element itself, unless that holds other values. -/
def elementText? (key : String) (item : Data) (m : Marker) : Option String :=
  if m.key = key then
    match m.property? with
    | some property => (item.resolve? property).map render
    | none => if item.isContainer then none else some item.render
  else none

def fillRoot (root : Data) (s : String) : String :=
  substitute [.root] (rootText? root) s

def fillElement (key : String) (item : Data) (s : String) : String :=
  substitute [.element] (elementText? key item) s

end Data

end SheetTemplate
