import SheetTemplate.Failure
import SheetTemplate.Marker.Binding
import SheetTemplate.Sheet.Basic
/-!
Which rows of a sheet repeat, and over what. A row with element markers of two keys makes the
whole sheet fail.
-/
namespace SheetTemplate

/-- A row and the key of the list that it repeats over. -/
structure Directive where
  row : Nat
  key : String
deriving DecidableEq

namespace Sheet

def binding (s : Sheet) (row : Nat) : Binding :=
  Binding.ofTexts (s.rowTexts row)

/-- Directives of some rows, in their order; the first row with mixed keys fails. -/
def directivesOf (s : Sheet) : List Nat → Except Failure (List Directive)
  | [] => .ok []
  | row :: rest =>
    match s.binding row with
    | .mixed first second => .error (.mixedKeys s.name row first second)
    | .bound key => (directivesOf s rest).map (⟨row, key⟩ :: ·)
    | .free => directivesOf s rest

def directives (s : Sheet) : Except Failure (List Directive) :=
  s.directivesOf s.rowNumbers

end Sheet

end SheetTemplate
