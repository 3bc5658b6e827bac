import SheetTemplate.Fill.Expansion
import SheetTemplate.Package.Load
import SheetTemplate.Package.Save
/-!
Filling a template that is a package.
-/
namespace SheetTemplate.Package

def fill (data : Data) (template : Package) : Except Failure (Summary × Package) := do
  let workbook ← template.load
  let (summary, filled) ← workbook.expand data
  return (summary, ← filled.save)

end SheetTemplate.Package
