import SheetTemplate.Marker.Basic
import SheetTemplate.Power
/-!
The decomposition of a text into markers and single characters. It goes from left to right and
takes a marker wherever one begins; what is inside a marker is not looked at again. Which scopes
count is a parameter: a scan for one scope steps over the other's brackets as plain text.
-/
namespace SheetTemplate

inductive Piece where
  | plain (c : Char)
  | marker (m : Marker)
deriving DecidableEq

namespace Piece

def chars : Piece → List Char
  | plain c => [c]
  | marker m => m.raw

def marker? : Piece → Option Marker
  | plain _ => none
  | marker m => some m

end Piece

def pieces (scopes : List Scope) : List Char → List Piece
  | [] => []
  | c :: cs =>
    match Marker.frontOf? scopes (c :: cs) with
    | none => .plain c :: pieces scopes cs
    | some m => .marker m :: pieces scopes ((c :: cs).drop m.raw.length)
termination_by cs => cs.length
decreasing_by
  · simp
  · have := m.length_raw_pos
    simp only [List.length_drop, List.length_cons]
    omega

def markersOf (scopes : List Scope) (s : String) : List Marker :=
  (pieces scopes s.toList).filterMap Piece.marker?

/-- A marker with the bytes of the text that it takes, from `start` to before `stop`. -/
structure PlacedMarker where
  marker : Marker
  start : Nat
  stop : Nat
deriving DecidableEq

def byteLength (cs : List Char) : Nat :=
  total (cs.map Char.utf8Size)

def placed (start : Nat) : List Piece → List PlacedMarker
  | [] => []
  | .plain c :: rest => placed (start + c.utf8Size) rest
  | .marker m :: rest =>
    let stop := start + byteLength m.raw
    ⟨m, start, stop⟩ :: placed stop rest

/-- All markers of a text, of both scopes, with their places. -/
def placedMarkers (s : String) : List PlacedMarker :=
  placed 0 (pieces [.root, .element] s.toList)

end SheetTemplate
