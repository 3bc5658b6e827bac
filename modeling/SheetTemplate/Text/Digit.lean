/-!
Decimal digits of all scripts, which the pattern for cell references accepts, and ASCII letters
and digits, which alone carry a value.
-/
namespace SheetTemplate.Text

/-- First characters of the blocks of ten consecutive decimal digits, ascending. -/
def digitBlocks : List Nat :=
  [0x0030, 0x0660, 0x06F0, 0x07C0, 0x0966, 0x09E6, 0x0A66, 0x0AE6, 0x0B66, 0x0BE6, 0x0C66,
   0x0CE6, 0x0D66, 0x0DE6, 0x0E50, 0x0ED0, 0x0F20, 0x1040, 0x1090, 0x17E0, 0x1810, 0x1946,
   0x19D0, 0x1A80, 0x1A90, 0x1B50, 0x1BB0, 0x1C40, 0x1C50, 0xA620, 0xA8D0, 0xA900, 0xA9D0,
   0xA9F0, 0xAA50, 0xABF0, 0xFF10, 0x104A0, 0x10D30, 0x10D40, 0x11066, 0x110F0, 0x11136,
   0x111D0, 0x112F0, 0x11450, 0x114D0, 0x11650, 0x116C0, 0x116D0, 0x116DA, 0x11730, 0x118E0,
   0x11950, 0x11BF0, 0x11C50, 0x11D50, 0x11DA0, 0x11F50, 0x16130, 0x16A60, 0x16AC0, 0x16B50,
   0x16D70, 0x1CCF0, 0x1D7CE, 0x1D7D8, 0x1D7E2, 0x1D7EC, 0x1D7F6, 0x1E140, 0x1E2F0, 0x1E4F0,
   0x1E5F1, 0x1E950, 0x1FBF0]

/-- A character of the Unicode category `Nd`. -/
def isDecimalDigit (c : Char) : Bool :=
  digitBlocks.any fun first => first ≤ c.toNat && c.toNat < first + 10

def isCapital (c : Char) : Bool :=
  'A' ≤ c && c ≤ 'Z'

def isDigit (c : Char) : Bool :=
  '0' ≤ c && c ≤ '9'

def isAlphanumeric (c : Char) : Bool :=
  isCapital c || ('a' ≤ c && c ≤ 'z') || isDigit c

def lowerChar (c : Char) : Char :=
  if isCapital c then Char.ofNat (c.toNat + 32) else c

def lowerAscii (s : String) : String :=
  String.ofList (s.toList.map lowerChar)

/-- The digits of the ASCII alphabet are decimal digits. -/
theorem isDecimalDigit_of_isDigit (c : Char) (h : isDigit c = true) :
    isDecimalDigit c = true := by
  simp only [isDigit, Bool.and_eq_true, decide_eq_true_eq] at h
  have lower : 48 ≤ c.toNat := h.1
  have upper : c.toNat ≤ 57 := h.2
  simp only [isDecimalDigit, digitBlocks, List.any_cons, Bool.or_eq_true, Bool.and_eq_true,
    decide_eq_true_eq]
  left
  omega

end SheetTemplate.Text
