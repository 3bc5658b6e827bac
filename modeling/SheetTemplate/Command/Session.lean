import SheetTemplate.Command.DataFile
import SheetTemplate.Package.Load
/-!
What a command does to the world: it prints lines and writes files, and it may fail. What was
printed and written before a failure stays.
-/
namespace SheetTemplate

/-- What a command sees and leaves behind. -/
structure Desk where
  printed : String := ""
  folder : Folder := {}

abbrev Session (α : Type) := ExceptT Failure (StateM Desk) α

namespace Session

def say (line : String) : Session Unit :=
  modify fun d => { d with printed := d.printed ++ line ++ "\n" }

def sayAll (lines : List String) : Session Unit :=
  lines.forM say

def sayIf (condition : Bool) (line : String) : Session Unit :=
  if condition then say line else pure ()

def result {α : Type} (r : Except Failure α) : Session α :=
  match r with
  | .ok a => pure a
  | .error failure => throw failure

def loadData (path : String) : Session Data := do
  result ((← get).folder.loadData path)

def readFile (path : String) : Session FileContent := do
  result (((← get).folder.read path).mapError .file)

def writePackage (path : String) (p : Package) : Session Unit := do
  let d ← get
  let folder ← result ((d.folder.write path { package? := some p }).mapError .file)
  set { d with folder }

def packageOf (content : FileContent) : Except Failure Package :=
  match content.package? with
  | some p => .ok p
  | none => .error (.read .package)

end Session

end SheetTemplate
