import SheetTemplate.Command.Fill
import SheetTemplate.Command.Inspect
/-!
The command line: reads the files that a command names, runs it, prints what it said and writes its
output.
-/
namespace SheetTemplate.Main

inductive Request where
  | fill (request : FillRequest)
  | inspect (request : InspectRequest)

/-- Options and other words of a command line. -/
structure Words where
  plain : List String := []
  output : Option String := none
  verbose : Bool := false
  json : Bool := false

/-- The words of a command line, unless one is no option or lacks its value. -/
def words? (w : Words) : List String → Option Words
  | [] => some w
  | "-o" :: path :: rest => words? { w with output := some path } rest
  | "--output" :: path :: rest => words? { w with output := some path } rest
  | "-v" :: rest => words? { w with verbose := true } rest
  | "--verbose" :: rest => words? { w with verbose := true } rest
  | "--json" :: rest => words? { w with json := true } rest
  | word :: rest =>
    if word.toList.head? = some '-' then none
    else words? { w with plain := w.plain ++ [word] } rest

def request? (args : List String) : Option Request :=
  match words? {} args with
  | some w =>
    match w.plain, w.output with
    | ["fill", template, data], some output =>
      if w.json then none else some (.fill { template, data, output, verbose := w.verbose })
    | ["inspect", template], none =>
      if w.verbose then none else some (.inspect { template, json := w.json })
    | _, _ => none
  | none => none

def usage : String :=
  "usage: fill TEMPLATE DATA -o OUTPUT [--verbose]\n       inspect TEMPLATE [--json]"

def parent (path : String) : String :=
  String.ofList ((path.toList.reverse.dropWhile (· ≠ '/')).drop 1).reverse

def entryAt (path : String) : IO (List (String × FolderEntry)) := do
  try
    return [(path, .file (.ofBytes (← IO.FS.readBinFile path)))]
  catch
    | .inappropriateType .. => return [(path, .directory)]
    | .noFileOrDirectory .. => return []
    | e => throw e

def folderOf (paths : List String) : IO Folder := do
  return ⟨(← (paths.filter (· ≠ "")).mapM entryAt).flatten⟩

/-- Prints what a command said and returns whether it succeeded, with the files afterwards. -/
def perform (folder : Folder) (command : Session Unit) : IO (Bool × Folder) := do
  let (ending, desk) := command.run.run { folder }
  IO.print desk.printed
  match ending with
  | .ok _ => return (true, desk.folder)
  | .error failure =>
    IO.eprintln ("Error: " ++ failure.message)
    return (false, desk.folder)

def writeOutput (folder : Folder) (path : String) : IO Unit :=
  match folder.read path with
  | .ok { package? := some p, .. } => IO.FS.writeBinFile path (Archive.write p)
  | _ => pure ()

def run (args : List String) : IO UInt32 := do
  match request? args with
  | none =>
    IO.eprintln usage
    return 2
  | some (.fill r) =>
    let folder ← folderOf [r.template, r.data, r.output, parent r.output]
    let (succeeded, folder) ← perform folder r.run
    if succeeded then
      writeOutput folder r.output
      return 0
    return 1
  | some (.inspect r) =>
    let (succeeded, _) ← perform (← folderOf [r.template]) r.run
    return if succeeded then 0 else 1

end SheetTemplate.Main

def main (args : List String) : IO UInt32 :=
  SheetTemplate.Main.run args
