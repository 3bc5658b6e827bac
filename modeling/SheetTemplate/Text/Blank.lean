/-!
White space, and its removal at both ends of a text. The class is the Unicode property
`White_Space`; both the marker grammar and the trimming of paths use it.
-/
namespace SheetTemplate.Text

/-- A character with the Unicode property `White_Space`. -/
def isBlank (c : Char) : Bool :=
  let n := c.toNat
  (9 ≤ n && n ≤ 13) || n == 32 || n == 0x85 || n == 0xA0 || n == 0x1680
    || (0x2000 ≤ n && n ≤ 0x200A) || n == 0x2028 || n == 0x2029 || n == 0x202F || n == 0x205F
    || n == 0x3000

def stripBoth (p : Char → Bool) (cs : List Char) : List Char :=
  ((cs.dropWhile p).reverse.dropWhile p).reverse

def trimChars (cs : List Char) : List Char :=
  stripBoth isBlank cs

def trim (s : String) : String :=
  String.ofList (trimChars s.toList)

end SheetTemplate.Text
