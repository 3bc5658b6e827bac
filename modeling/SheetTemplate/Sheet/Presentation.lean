import SheetTemplate.Binary64.Basic
/-!
How a cell looks and what may be entered in it. A presentation goes with its cell when rows move
or are repeated.
-/
namespace SheetTemplate

inductive Align where
  | left
  | center
  | right
deriving DecidableEq

inductive Border where
  | thin
  | medium
  | thick
deriving DecidableEq

/-- Font, fill, alignment and number format. Colours are `0xRRGGBB`. -/
structure Style where
  bold : Bool := false
  italic : Bool := false
  underline : Bool := false
  wrap : Bool := false
  fontName : Option String := none
  fontSize : Option Binary64 := none
  fontColor : Option Nat := none
  fillColor : Option Nat := none
  numberFormat : Option String := none
  align : Option Align := none
  border : Option Border := none
deriving DecidableEq

/-- A comparison with one or two operands. -/
inductive Comparison (α : Type) where
  | between (low high : α)
  | notBetween (low high : α)
  | equal (operand : α)
  | notEqual (operand : α)
  | greaterThan (operand : α)
  | greaterThanOrEqual (operand : α)
  | lessThan (operand : α)
  | lessThanOrEqual (operand : α)
deriving DecidableEq

/-- What an entry has to satisfy. Formulas have no leading equals sign. -/
inductive Rule where
  /-- One of these texts. -/
  | list (choices : List String)
  /-- One of the values of a range or formula. -/
  | source (formula : String)
  | whole (comparison : Comparison Int32)
  | decimal (comparison : Comparison Binary64)
  | custom (formula : String)
deriving DecidableEq

/-- A rule for entries, whether it lets a blank entry pass, and the message for one that fails. -/
structure Validation where
  rule : Rule
  ignoreBlank : Bool := true
  message : Option String := none
deriving DecidableEq

/-- What a protected sheet keeps from the user. -/
structure Protection where
  locked : Bool := true
  hidden : Bool := false
deriving DecidableEq

/-- Everything about a cell but its value. -/
structure Presentation where
  style : Option Style := none
  validation : Option Validation := none
  protection : Option Protection := none
deriving DecidableEq

def Presentation.isDefault (p : Presentation) : Bool :=
  p.style.isNone && p.validation.isNone && p.protection.isNone

end SheetTemplate
