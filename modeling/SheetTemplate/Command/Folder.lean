import SheetTemplate.Archive.Zip
import SheetTemplate.Failure
/-!
The files that a command works on, by their paths. A path is followed step by step; a folder is
there if a file lies in it.
-/
namespace SheetTemplate

/-- A file in two views: its text, if its bytes are UTF-8, and its package, if they are one. -/
structure FileContent where
  text? : Option String := none
  package? : Option Package := none

def FileContent.ofBytes (b : ByteArray) : FileContent where
  text? := String.fromUTF8? b
  package? := Archive.read? b

/-- Something that a path leads to. -/
inductive FolderEntry where
  | file (content : FileContent)
  | directory

/-- Files and folders by their paths, those written last first. -/
structure Folder where
  entries : List (String × FolderEntry) := []

namespace Folder

/-- The place after a step. A step up from the root stays there. -/
def step (place : List String) (name : String) : List String :=
  if name = "" || name = "." then place
  else if name = ".." then
    match place.getLast? with
    | none => [".."]
    | some last =>
      if last = ".." then place ++ [".."] else if last = "/" then place else place.dropLast
  else place ++ [name]

/-- The place that a path leads to: the names on the way, after `/` if it starts at the root. -/
def steps (path : String) : List String :=
  (Text.split '/' path).foldl step (if path.toList.head? = some '/' then ["/"] else [])

def namesDirectory (path : String) : Bool :=
  path.toList.getLast? = some '/'

/-- What lies at a place. The folders above are there. -/
def at? (f : Folder) (place : List String) : Option FolderEntry :=
  match f.entries.find? fun e => steps e.1 = place with
  | some (_, entry) => some entry
  | none =>
    if place.all (fun name => name = ".." || name = "/")
        || f.entries.any fun e => place.isPrefixOf (steps e.1) then some .directory
    else none

def find? (f : Folder) (path : String) : Option FolderEntry :=
  if path = "" then none else f.at? (steps path)

def read (f : Folder) (path : String) : Except FileFailure FileContent :=
  match f.find? path with
  | none => .error .missing
  | some .directory => .error .directory
  | some (.file content) => if namesDirectory path then .error .notDirectory else .ok content

def readText (f : Folder) (path : String) : Except FileFailure String := do
  match (← f.read path).text? with
  | some text => return text
  | none => throw .notUtf8

def write (f : Folder) (path : String) (content : FileContent) : Except FileFailure Folder :=
  match f.find? path with
  | some .directory => .error .directory
  | some (.file _) =>
    if namesDirectory path then .error .notDirectory
    else .ok ⟨(path, .file content) :: f.entries⟩
  | none =>
    if path = "" then .error .missing
    else
      match f.at? (steps path).dropLast with
      | none => .error .missing
      | some (.file _) => .error .notDirectory
      | some .directory =>
        if namesDirectory path then .error .directory
        else .ok ⟨(path, .file content) :: f.entries⟩

end Folder

end SheetTemplate
