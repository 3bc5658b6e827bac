import SheetTemplate.Text.Blank
/-!
Markers: places in a text that data is written into. A root marker `{{path}}` starts from the
root of the data, an element marker `[[key.path]]` from one element of the list under its key.
What stands between the brackets is kept as it is; key and path are read off it.
-/
namespace SheetTemplate

/-- The part of the data that a marker's path starts from. -/
inductive Scope where
  | root
  | element
deriving DecidableEq

def Scope.opening : Scope → Char
  | .root => '{'
  | .element => '['

def Scope.closing : Scope → Char
  | .root => '}'
  | .element => ']'

/-- What may stand between the brackets, besides that it holds no closing bracket: anything but
nothing; in an element marker there is also something before the first dot and something after
it. -/
def Scope.admits : Scope → List Char → Bool
  | .root, content => !content.isEmpty
  | .element, content =>
    !content.isEmpty && content.head? != some '.' && content.dropWhile (· ≠ '.') != ['.']

/-- A marker: its scope, and the characters between its brackets. -/
structure Marker where
  scope : Scope
  content : List Char
deriving DecidableEq

namespace Marker

def raw (m : Marker) : List Char :=
  m.scope.opening :: m.scope.opening :: (m.content ++ [m.scope.closing, m.scope.closing])

def key (m : Marker) : String :=
  String.ofList (Text.trimChars (m.content.takeWhile (· ≠ '.')))

def property? (m : Marker) : Option String :=
  match m.content.dropWhile (· ≠ '.') with
  | [] => none
  | _ :: rest => some (String.ofList (Text.trimChars rest))

/-- The whole path: of an element marker its key and then its property. -/
def path (m : Marker) : String :=
  match m.scope with
  | .root => String.ofList (Text.trimChars m.content)
  | .element =>
    match m.property? with
    | none => m.key
    | some property => m.key ++ "." ++ property

def front? (s : Scope) : List Char → Option Marker
  | a :: b :: rest =>
    if a = s.opening ∧ b = s.opening then
      let content := rest.takeWhile (· ≠ s.closing)
      match rest.dropWhile (· ≠ s.closing) with
      | c :: d :: _ =>
        if c = s.closing ∧ d = s.closing ∧ s.admits content then some ⟨s, content⟩ else none
      | _ => none
    else none
  | _ => none

def frontOf? (scopes : List Scope) (cs : List Char) : Option Marker :=
  scopes.findSome? fun s => front? s cs

theorem length_raw_pos (m : Marker) : 0 < m.raw.length := by
  simp [raw]

end Marker

end SheetTemplate
