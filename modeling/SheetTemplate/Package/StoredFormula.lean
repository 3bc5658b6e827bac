import SheetTemplate.Package.CellStream
/-!
Formulas of cells as a worksheet part stores them. A formula may be written once for a row or
column of cells; the others then refer to it by an index, and take it with its references moved.
-/
namespace SheetTemplate

/-- A formula that several cells share: its text at the first of them, and how far the others
are from it. -/
structure SharedFormula where
  text : String
  /-- Rows and columns from the first cell, by the cell. -/
  reach : List (CellRef × (Nat × Nat))

namespace SharedFormula

/-- Distances of the cells of a range that is one column wide or one row high. Of other ranges only
the first column counts, and a single cell has none. -/
def distances (first last : CellRef) : List (CellRef × (Nat × Nat)) :=
  if first.row ≠ last.row then
    (List.range (last.row + 1 - first.row)).map fun i =>
      (⟨first.row + i, first.column⟩, (i, 0))
  else if first.column ≠ last.column then
    (List.range (last.column + 1 - first.column)).map fun i =>
      (⟨first.row, first.column + i⟩, (0, i))
  else []

def lastColumn : Nat := 16384

def movePiece (rows columns : Nat) (piece : List Char) : List Char :=
  match Package.cellRef? piece with
  | some c =>
    if c.column + columns ≤ lastColumn then
      CellRef.chars ⟨c.row + rows, c.column + columns⟩
    else piece
  | none => piece

def isLetter (c : Char) : Bool :=
  Text.isAlphanumeric c && !Text.isDigit c

/-- A formula's text moved from some point on, given whether the point is in quotes, the piece of
letters and digits in front of it, and whether that has digits. A piece ends where a letter
follows a digit. -/
def moveFrom (rows columns : Nat) (quoted : Bool) (piece : List Char) (digits : Bool) :
    List Char → List Char
  | [] => movePiece rows columns piece
  | c :: cs =>
    let quoted := if c = '"' then !quoted else quoted
    if quoted then c :: moveFrom rows columns true piece digits cs
    else if isLetter c then
      if digits then piece ++ moveFrom rows columns false [c] false cs
      else moveFrom rows columns false (piece ++ [c]) false cs
    else if Text.isDigit c then moveFrom rows columns false (piece ++ [c]) true cs
    else movePiece rows columns piece ++ c :: moveFrom rows columns false [] false cs

def at? (f : SharedFormula) (place : CellRef) : Option String :=
  (f.reach.find? fun e => e.1 = place).map fun (_, rows, columns) =>
    String.ofList (moveFrom rows columns false [] false f.text.toList)

/-- Formulas with one more, at an index or behind those there are. -/
def push (formulas : Array (Option SharedFormula)) (index : Nat) (f : SharedFormula) :
    Array (Option SharedFormula) :=
  (formulas ++ Array.replicate (index - formulas.size) none).push (some f)

end SharedFormula

abbrev SharedFormulas := Array (Option SharedFormula)

namespace SharedFormulas

def child? (name : String) : Option Child :=
  match Xml.localName name with
  | "f" => some (.plain name "")
  | "v" => some (.skipped name 0)
  | "is" => some (.skipped name 0)
  | _ => none

def index? (attributes : List Xml.Attribute) : Option Nat :=
  match Package.rawAttribute? "si" attributes with
  | some (some raw) => (Text.natural? 10 raw).filter (· < twoTo 64)
  | _ => none

/-- The formulas and the cell's own after a child that has this formula, if any, and is marked as
shared. -/
def share? (formulas : SharedFormulas) (place : CellRef) (attributes : List Xml.Attribute)
    (own : Option String) (formula : Option String) : Option (SharedFormulas × Option String) :=
  match index? attributes, Package.rawAttribute? "ref" attributes with
  | some index, some (some raw) =>
    match Package.corners? raw, own with
    | none, _ => none
    | some _, none => some (formulas, none)
    | some (first, last), some text =>
      some (SharedFormula.push formulas index ⟨text, SharedFormula.distances first last⟩, own)
  | some index, some none =>
    match ((formulas[index]?).join).bind fun f => f.at? place with
    | some moved => some (formulas, some moved)
    | none => some (formulas, formula)
  | _, _ => none

def take? (formulas : SharedFormulas) (tag : CellTag) (attributes : List Xml.Attribute)
    (content : Content) (formula : Option String) : Option (SharedFormulas × Option String) :=
  let own := match content with
    | .plain text => some text
    | _ => none
  let formula := own <|> formula
  match Package.rawAttribute? "t" attributes with
  | some (some type) =>
    if type = "shared".toList then share? formulas tag.place attributes own formula
    else some (formulas, formula)
  | _ => some (formulas, formula)

def reader : CellReader SharedFormulas (Option String) where
  child? := child?
  take? := take?

/-- The formulas of a worksheet part, without those that are empty. -/
def ofEvents? (events : List Xml.Event) : Option (List (CellRef × String)) :=
  (reader.read? #[] none events).map fun cells =>
    withinRows <| cells.filterMap fun (place, formula) =>
      (formula.filter fun f => !f.isEmpty).map (place, ·)

end SharedFormulas

end SheetTemplate
