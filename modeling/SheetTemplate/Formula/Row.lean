import SheetTemplate.Formula.Token
import SheetTemplate.Text.Numeral
/-!
Moving the references of a formula from one row to another, as its cell moves. Only relative rows
move, and only those that name the row the cell comes from; literals, names that merely look like
references and references into other sheets stay.
-/
namespace SheetTemplate.Formula

def opensReference (c : Char) : Bool :=
  !(Text.isAlphanumeric c || c = '_' || c = '.' || c = '$' || c = '!')

def closesReference (c : Char) : Bool :=
  !(Text.isAlphanumeric c || c = '_' || c = '(' || c = '!')

/-- The row that digits name, in 32 bits; digits of other scripts than ASCII name none. -/
def rowOf? (digits : List Char) : Option Nat :=
  (Text.natural? 10 digits).filter (· < twoTo 32)

def isStandalone (before after : Option Char) : Bool :=
  before.all opensReference && after.all closesReference

def moveToken (a b : Nat) (before after : Option Char) : Token → Token
  | .reference dollar letters digits =>
    if isStandalone before after && rowOf? digits = some a then
      .reference dollar letters (Text.digits b)
    else .reference dollar letters digits
  | t => t

/-- The tokens moved from row `a` to row `b`, given the character before them. Neighbours are
those that the tokens have before the move. -/
def moveTokens (a b : Nat) (before : Option Char) : List Token → List Token
  | [] => []
  | t :: rest =>
    moveToken a b before (firstChar? rest) t
      :: moveTokens a b (t.chars.getLast?.or before) rest

/-- The formula moved from row `a` to row `b`. A formula that stays in its row is kept as it is,
also where its rows are written with leading zeros. -/
def moveRow (a b : Nat) (formula : String) : String :=
  if a = b then formula
  else String.ofList (chars (moveTokens a b none (tokens formula.toList)))

end SheetTemplate.Formula
