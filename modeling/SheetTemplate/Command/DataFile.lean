import SheetTemplate.Command.Folder
import SheetTemplate.Data.Json
import SheetTemplate.Data.Yaml
/-!
Data files. The end of the name says what language the file is in; under any other name it may be in
either.
-/
namespace SheetTemplate

/-- The language of a data file. -/
inductive DataLanguage where
  | json
  | yaml
  /-- JSON if the text is that, and else YAML. -/
  | either
deriving DecidableEq

namespace DataLanguage

/-- What follows the last point of a file's name, unless the point is its first character. -/
def suffix? (name : String) : Option (List Char) :=
  let backward := name.toList.reverse
  match backward.dropWhile (· ≠ '.') with
  | _ :: _ :: _ => some (backward.takeWhile (· ≠ '.')).reverse
  | _ => none

def ofPath (path : String) : DataLanguage :=
  let names := (Text.split '/' path).filter fun name => name ≠ "" && name ≠ "."
  match (names.getLast?.filter (· ≠ "..")).bind suffix? with
  | none => either
  | some suffix =>
    let suffix := String.ofList (suffix.map Text.lowerChar)
    if suffix = "json" then json
    else if suffix = "yaml" || suffix = "yml" then yaml
    else either

def read (language : DataLanguage) (text : String) : Except DataFailure Data :=
  let yaml? := match Data.ofYamlText? text with
    | some d => .ok d
    | none => .error .yaml
  match language with
  | yaml => yaml?
  | json =>
    match Data.ofJsonText? text with
    | some d => .ok d
    | none => .error .json
  | either =>
    match Data.ofJsonText? text with
    | some d => .ok d
    | none => yaml?

end DataLanguage

def Folder.loadData (f : Folder) (path : String) : Except Failure Data := do
  let text ← (f.readText path).mapError .file
  ((DataLanguage.ofPath path).read text).mapError (.data path)

end SheetTemplate
