import SheetTemplate.Text.Numeral
/-!
What can go wrong, as causes, and the message of each. Causes inside a package or a data text are
told apart only by the part that they lie in.
-/
namespace SheetTemplate

/-- Why a template cannot be read. -/
inductive ReadFailure where
  /-- The package, or what its worksheets depend on, is not usable. -/
  | package
  | mergedRegions
  /-- An attribute is malformed, or an element has it twice. -/
  | malformedAttribute
  /-- A part that describes presentations is not well formed. -/
  | part (name : String)
  /-- The values of a worksheet cannot be read. -/
  | worksheet (name : String)
deriving DecidableEq

def ReadFailure.message : ReadFailure → String
  | package => "Failed to open Excel file"
  | mergedRegions => "Failed to load merged regions"
  | malformedAttribute => "Failed to read XML attribute"
  | part name => "Failed to read " ++ name
  | worksheet name => "Failed to read worksheet '" ++ name ++ "'"

/-- Why a workbook cannot be written. -/
inductive WriteFailure where
  | rowZero
  | column (column : Nat)
  | cell (row column : Nat)
  | sheetName (name : String)
  | width (column : Nat)
  | merge (range : String)
  | choices
  | entryMessage
  /-- The sheets are fine one by one, but not together. -/
  | workbook
deriving DecidableEq

def WriteFailure.message : WriteFailure → String
  | rowZero => "Row numbers start at 1"
  | column c => "Column " ++ Text.decimal c ++ " is out of range"
  | cell row c =>
    "Failed to write cell at row " ++ Text.decimal row ++ ", column " ++ Text.decimal c
  | sheetName name => "Failed to set worksheet name '" ++ name ++ "'"
  | width c => "Failed to set width of column " ++ Text.decimal c
  | merge range => "merge_range " ++ range ++ " failed"
  | choices => "Invalid list validation"
  | entryMessage => "Invalid validation message"
  | workbook => "Failed to serialize workbook"

/-- Why a data text cannot be read. -/
inductive DataFailure where
  | json
  | yaml
deriving DecidableEq

def DataFailure.message : DataFailure → String
  | json => "JSON parsing error"
  | yaml => "YAML parsing error"

/-- Why a file cannot be used. -/
inductive FileFailure where
  | missing
  | directory
  | notDirectory
  | notUtf8
deriving DecidableEq

def FileFailure.message : FileFailure → String
  | missing => "No such file or directory (os error 2)"
  | directory => "Is a directory (os error 21)"
  | notDirectory => "Not a directory (os error 20)"
  | notUtf8 => "stream did not contain valid UTF-8"

/-- Why a template cannot be filled. -/
inductive Failure where
  | file (cause : FileFailure)
  | text (cause : DataFailure)
  /-- A row has element markers of two keys. -/
  | mixedKeys (sheet : String) (row : Nat) (first second : String)
  /-- A row repeats over something that is no list. -/
  | notAList (sheet : String) (row : Nat) (key kind : String)
  | read (cause : ReadFailure)
  | write (cause : WriteFailure)
  /-- A data file does not hold what its name promises. -/
  | data (name : String) (cause : DataFailure)
deriving DecidableEq

namespace Failure

def message : Failure → String
  | file cause => "IO error: " ++ cause.message
  | text cause => cause.message
  | mixedKeys sheet row first second =>
    "Mixed array keys in worksheet \"" ++ sheet ++ "\", row " ++ Text.decimal row ++ ": " ++ first
      ++ " vs " ++ second
  | notAList sheet row key kind =>
    "[[" ++ key ++ ".*]] requires \"" ++ key ++ "\" to be an array in worksheet \"" ++ sheet
      ++ "\", row " ++ Text.decimal row ++ ". Received: " ++ kind
  | read cause => "Import error: " ++ cause.message
  | write cause => "Export error: " ++ cause.message
  | data name cause =>
    "Data error: Failed to parse data file '" ++ name ++ "': " ++ cause.message

def location? : Failure → Option (String × Nat)
  | mixedKeys sheet row _ _ => some (sheet, row)
  | notAList sheet row _ _ => some (sheet, row)
  | _ => none

end Failure

end SheetTemplate
