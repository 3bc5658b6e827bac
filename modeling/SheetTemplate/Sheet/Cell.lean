import SheetTemplate.Calendar.DateTime
import SheetTemplate.Sheet.Presentation
/-!
Cells: a value and a presentation.
-/
namespace SheetTemplate

/-- The value of a cell. A formula has no leading equals sign. -/
inductive CellValue where
  | empty
  | text (s : String)
  | number (x : Binary64)
  | bool (b : Bool)
  | date (d : DateTime)
  | formula (s : String)
deriving DecidableEq

namespace CellValue

/-- The text without one equals sign at its front. -/
def dropEquals (s : String) : String :=
  match s.toList with
  | '=' :: cs => String.ofList cs
  | _ => s

def ofFormula (s : String) : CellValue :=
  formula (dropEquals s)

/-- The text of a text cell; formulas have none. -/
def text? : CellValue → Option String
  | text s => some s
  | _ => none

def formula? : CellValue → Option String
  | formula s => some s
  | _ => none

end CellValue

structure Cell where
  value : CellValue := .empty
  presentation : Presentation := {}
deriving DecidableEq

end SheetTemplate
