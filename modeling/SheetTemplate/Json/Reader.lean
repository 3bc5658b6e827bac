import SheetTemplate.Json.Number
/-!
Reading a JSON text, strictly: no comma after the last item, no raw control characters in
strings, no half of a surrogate pair, and at most 127 containers inside each other. Of fields with
the same key the last one stays.
-/
namespace SheetTemplate.Json

def isSpace (c : Char) : Bool :=
  c = ' ' || c = '\n' || c = '\t' || c = '\r'

def skip (cs : List Char) : List Char :=
  cs.dropWhile isSpace

def escaped? (c : Char) : Option Char :=
  if c = '"' || c = '\\' || c = '/' then some c
  else if c = 'b' then some '\x08'
  else if c = 'f' then some '\x0c'
  else if c = 'n' then some '\n'
  else if c = 'r' then some '\r'
  else if c = 't' then some '\t'
  else none

def inside? : List Char → Option (List Char × List Char)
  | [] => none
  | '"' :: rest => some ([], rest)
  | '\\' :: 'u' :: a :: b :: c :: d :: rest =>
    match Text.natural? 16 [a, b, c, d] with
    | none => none
    | some n =>
      if 0xDC00 ≤ n ∧ n ≤ 0xDFFF then none
      else if 0xD800 ≤ n ∧ n ≤ 0xDBFF then
        match rest with
        | '\\' :: 'u' :: a' :: b' :: c' :: d' :: rest' =>
          match Text.natural? 16 [a', b', c', d'] with
          | none => none
          | some m =>
            if 0xDC00 ≤ m ∧ m ≤ 0xDFFF then
              let code := 0x10000 + (n - 0xD800) * 0x400 + (m - 0xDC00)
              (inside? rest').map fun (cs, left) => (Char.ofNat code :: cs, left)
            else none
        | _ => none
      else (inside? rest).map fun (cs, left) => (Char.ofNat n :: cs, left)
  | '\\' :: e :: rest =>
    match escaped? e with
    | none => none
    | some c => (inside? rest).map fun (cs, left) => (c :: cs, left)
  | c :: rest =>
    if c.toNat < 32 || c = '\\' then none
    else (inside? rest).map fun (cs, left) => (c :: cs, left)

def expect? (word : List Char) (cs : List Char) : Option (List Char) :=
  if word.isPrefixOf cs then some (cs.drop word.length) else none

def scalar? : List Char → Option (Json × List Char)
  | '"' :: rest => (inside? rest).map fun (cs, left) => (text (String.ofList cs), left)
  | 'n' :: rest => (expect? "ull".toList rest).map fun left => (null, left)
  | 't' :: rest => (expect? "rue".toList rest).map fun left => (bool true, left)
  | 'f' :: rest => (expect? "alse".toList rest).map fun left => (bool false, left)
  | cs => number? cs

def items? {α : Type} (item? : List Char → Option (α × List Char)) (close : Char)
    (cs : List Char) : Option (List α × List Char) :=
  match item? cs with
  | none => none
  | some (a, rest) =>
    match skip rest with
    | [] => none
    | c :: next =>
      if c = close then some ([a], next)
      else if c = ',' ∧ next.length < cs.length then
        (items? item? close next).map fun (more, left) => (a :: more, left)
      else none
termination_by cs.length

def member? (value? : List Char → Option (Json × List Char)) (cs : List Char) :
    Option ((String × Json) × List Char) :=
  match skip cs with
  | '"' :: rest =>
    match inside? rest with
    | none => none
    | some (key, rest) =>
      match skip rest with
      | ':' :: rest => (value? rest).map fun (v, left) => ((String.ofList key, v), left)
      | _ => none
  | _ => none

/-- The value at the front, after white space, with at most `depth` containers inside each
other, and what follows it. -/
def value? : Nat → List Char → Option (Json × List Char)
  | 0, cs => scalar? (skip cs)
  | depth + 1, cs =>
    match skip cs with
    | '[' :: rest =>
      match skip rest with
      | ']' :: left => some (list [], left)
      | _ => (items? (value? depth) ']' rest).map fun (vs, left) => (list vs, left)
    | '{' :: rest =>
      match skip rest with
      | '}' :: left => some (ofFields [], left)
      | _ => (items? (member? (value? depth)) '}' rest).map fun (es, left) => (ofFields es, left)
    | cs => scalar? cs

def maxDepth : Nat := 127

def ofText? (s : String) : Option Json :=
  match value? maxDepth s.toList with
  | some (v, left) => if (skip left).isEmpty then some v else none
  | none => none

end SheetTemplate.Json
