import SheetTemplate.Main
import SheetTemplate.Proofs.Grid.Table
import SheetTemplate.Proofs.Sheet.Rows
import SheetTemplate.Proofs.Marker.Scan
import SheetTemplate.Proofs.Marker.Listing
import SheetTemplate.Proofs.Marker.Substitute
import SheetTemplate.Proofs.Marker.Tidy
import SheetTemplate.Proofs.Fill.Plan
import SheetTemplate.Proofs.Fill.Success
import SheetTemplate.Proofs.Fill.Replacement
import SheetTemplate.Proofs.Fill.Faults
import SheetTemplate.Proofs.Fill.Layout
import SheetTemplate.Proofs.Fill.RootTexts
import SheetTemplate.Proofs.Fill.StagedTexts
import SheetTemplate.Proofs.Formula.Live
import SheetTemplate.Proofs.Fill.FormulaRows
import SheetTemplate.Proofs.Grid.Naming
import SheetTemplate.Proofs.Grid.Range
import SheetTemplate.Proofs.Sheet.Merges
import SheetTemplate.Proofs.Fill.MergeCopies
import SheetTemplate.Proofs.Fill.MergePlan
import SheetTemplate.Proofs.Fill.MergeLayout
import SheetTemplate.Proofs.Fill.Geometry
import SheetTemplate.Proofs.Fill.StagedPlan
import SheetTemplate.Proofs.Fill.StagedMerges
import SheetTemplate.Proofs.Fill.Stages
import SheetTemplate.Proofs.Fill.Forecast
import SheetTemplate.Proofs.Formula.Cut
import SheetTemplate.Proofs.Formula.Reading
import SheetTemplate.Proofs.Formula.Reference
import SheetTemplate.Proofs.Formula.Image
import SheetTemplate.Proofs.Formula.Qualified
import SheetTemplate.Proofs.Sheet.Edits
import SheetTemplate.Proofs.Marker.Residue
import SheetTemplate.Proofs.Marker.Grammar
import SheetTemplate.Proofs.Sheet.RowEdits
import SheetTemplate.Proofs.Xml.Attribute
import SheetTemplate.Proofs.Xml.Printed
import SheetTemplate.Proofs.Package.StoredValidation
import SheetTemplate.Proofs.Package.SheetPart
import SheetTemplate.Proofs.Package.SheetLook
import SheetTemplate.Proofs.Package.WrittenSheet
import SheetTemplate.Proofs.Package.WrittenLook
import SheetTemplate.Proofs.Package.Styles
import SheetTemplate.Proofs.Package.Parts
import SheetTemplate.Proofs.Package.SheetList
import SheetTemplate.Proofs.Package.Looks
import SheetTemplate.Proofs.Package.SharedTexts
import SheetTemplate.Proofs.Package.Places
import SheetTemplate.Proofs.Package.WrittenValues
import SheetTemplate.Proofs.Package.Load
import SheetTemplate.Proofs.Package.RoundTrip
import SheetTemplate.Proofs.Marker.Splice
import SheetTemplate.Proofs.Formula.Identifier
import SheetTemplate.Proofs.Grid.Spelling
import SheetTemplate.Proofs.Fill.NamedMerges
import SheetTemplate.Proofs.Package.StyleSections
import SheetTemplate.Proofs.Package.StyleTree
import SheetTemplate.Proofs.Package.StyleReading
import SheetTemplate.Proofs.Data.Path
import SheetTemplate.Proofs.Package.MergeSelection
import SheetTemplate.Proofs.Package.WrittenMerges
import SheetTemplate.Proofs.Package.StyleSeparation
import SheetTemplate.Proofs.Xml.TextTree
import SheetTemplate.Proofs.Package.LookReading
import SheetTemplate.Proofs.Package.SpreadValidations
import SheetTemplate.Proofs.Json.Token
import SheetTemplate.Proofs.Json.RoundTrip
import SheetTemplate.Proofs.Data.JsonText
import SheetTemplate.Proofs.Calendar.IsoText
import SheetTemplate.Proofs.Binary64.Rounding
import SheetTemplate.Proofs.Calendar.Serial
import SheetTemplate.Proofs.Grid.Area
import SheetTemplate.Proofs.Package.Overlay
import SheetTemplate.Proofs.Package.StoredCells
