import SheetTemplate.Archive.Bytes
import SheetTemplate.Power
/-!
Decompression of the deflate format: blocks of bytes as they are, or of literals and references to
bytes before, in prefix codes. A position counts bits.
-/
namespace SheetTemplate.Archive

def bit? (b : ByteArray) (pos : Nat) : Option Nat :=
  (b[pos / 8]?).map fun byte => byte.toNat / twoTo (pos % 8) % 2

def bits? (b : ByteArray) (pos : Nat) : Nat → Option Nat
  | 0 => some 0
  | n + 1 =>
    match bit? b pos, bits? b (pos + 1) n with
    | some low, some high => some (low + 2 * high)
    | _, _ => none

/-- A prefix code: how many words have one bit, two bits and so on, and the symbols in the order of
their words. -/
structure PrefixCode where
  counts : List Nat
  symbols : Array Nat

namespace PrefixCode

/-- The code in which each symbol has a word of the given length, 0 for none. Words of one length
ascend with their symbols. -/
def ofLengths (lengths : List Nat) : PrefixCode where
  counts := (List.range' 1 15).map fun n => lengths.count n
  symbols := ((List.range' 1 15).flatMap fun n =>
    (lengths.zipIdx.filter fun e => e.1 = n).map (·.2)).toArray

/-- The symbol of the word at a position, and the position behind it. The word so far is `word`;
`first` is the first word of this length and `index` the number of its symbol. -/
def decodeFrom? (b : ByteArray) (symbols : Array Nat) (pos word first index : Nat) :
    List Nat → Option (Nat × Nat)
  | [] => none
  | count :: rest =>
    match bit? b pos with
    | none => none
    | some bit =>
      let word := word + bit
      if word < first + count then symbols[index + (word - first)]?.map (·, pos + 1)
      else decodeFrom? b symbols (pos + 1) (2 * word) (2 * (first + count)) (index + count) rest

def decode? (c : PrefixCode) (b : ByteArray) (pos : Nat) : Option (Nat × Nat) :=
  decodeFrom? b c.symbols pos 0 0 0 c.counts

end PrefixCode

/-- Base and number of extra bits of a length, by its symbol less 257. -/
def lengthSymbols : Array (Nat × Nat) :=
  #[(3, 0), (4, 0), (5, 0), (6, 0), (7, 0), (8, 0), (9, 0), (10, 0), (11, 1), (13, 1), (15, 1),
    (17, 1), (19, 2), (23, 2), (27, 2), (31, 2), (35, 3), (43, 3), (51, 3), (59, 3), (67, 4),
    (83, 4), (99, 4), (115, 4), (131, 5), (163, 5), (195, 5), (227, 5), (258, 0)]

/-- Base and number of extra bits of a distance, by its symbol. -/
def distanceSymbols : Array (Nat × Nat) :=
  #[(1, 0), (2, 0), (3, 0), (4, 0), (5, 1), (7, 1), (9, 2), (13, 2), (17, 3), (25, 3), (33, 4),
    (49, 4), (65, 5), (97, 5), (129, 6), (193, 6), (257, 7), (385, 7), (513, 8), (769, 8),
    (1025, 9), (1537, 9), (2049, 10), (3073, 10), (4097, 11), (6145, 11), (8193, 12),
    (12289, 12), (16385, 13), (24577, 13)]

def extended? (b : ByteArray) (pos : Nat) (table : Array (Nat × Nat)) (symbol : Nat) :
    Option (Nat × Nat) :=
  match table[symbol]? with
  | none => none
  | some (base, extra) => (bits? b pos extra).map fun n => (base + n, pos + extra)

def copy (distance : Nat) (out : ByteArray) : Nat → ByteArray
  | 0 => out
  | n + 1 => copy distance (out.push (out.get! (out.size - distance))) n

def inflateSymbols? (b : ByteArray) (literals distances : PrefixCode) :
    Nat → Nat → ByteArray → Option (Nat × ByteArray)
  | 0, _, _ => none
  | fuel + 1, pos, out =>
    match literals.decode? b pos with
    | none => none
    | some (symbol, pos) =>
      if symbol < 256 then
        inflateSymbols? b literals distances fuel pos (out.push (UInt8.ofNat symbol))
      else if symbol = 256 then some (pos, out)
      else
        match extended? b pos lengthSymbols (symbol - 257) with
        | none => none
        | some (length, pos) =>
          match distances.decode? b pos with
          | none => none
          | some (symbol, pos) =>
            match extended? b pos distanceSymbols symbol with
            | none => none
            | some (distance, pos) =>
              if out.size < distance then none
              else inflateSymbols? b literals distances fuel pos (copy distance out length)

def fixedCodes : PrefixCode × PrefixCode :=
  (.ofLengths (List.replicate 144 8 ++ List.replicate 112 9 ++ List.replicate 24 7
    ++ List.replicate 8 8), .ofLengths (List.replicate 30 5))

def lengthOrder : List Nat :=
  [16, 17, 18, 0, 8, 7, 9, 6, 10, 5, 11, 4, 12, 3, 13, 2, 14, 1, 15]

/-- Lengths of words up to a number of them, in reverse after those there are; runs are written
short. -/
def wordLengths? (b : ByteArray) (code : PrefixCode) (total : Nat) :
    Nat → Nat → List Nat → Option (Nat × List Nat)
  | 0, _, _ => none
  | fuel + 1, pos, found =>
    if found.length = total then some (pos, found.reverse)
    else if total < found.length then none
    else
      match code.decode? b pos with
      | none => none
      | some (symbol, pos) =>
        let run (base extra : Nat) (length : Nat) : Option (Nat × List Nat) :=
          match bits? b pos extra with
          | none => none
          | some n =>
            wordLengths? b code total fuel (pos + extra) (List.replicate (base + n) length ++ found)
        if symbol < 16 then wordLengths? b code total fuel pos (symbol :: found)
        else if symbol = 16 then
          match found with
          | last :: _ => run 3 2 last
          | [] => none
        else if symbol = 17 then run 3 3 0
        else run 11 7 0

def describedCodes? (b : ByteArray) (pos : Nat) : Option (Nat × PrefixCode × PrefixCode) := do
  let literals ← bits? b pos 5
  let distances ← bits? b (pos + 5) 5
  let count ← bits? b (pos + 10) 4
  let pos := pos + 14
  let used := count + 4
  let lengths ← (List.range used).mapM fun i => bits? b (pos + 3 * i) 3
  let named := lengthOrder.zip lengths
  let code := PrefixCode.ofLengths ((List.range 19).map fun i =>
    ((named.find? fun e => e.1 = i).map (·.2)).getD 0)
  let total := literals + 257 + distances + 1
  let (pos, all) ← wordLengths? b code total (total + 1) (pos + 3 * used) []
  return (pos, .ofLengths (all.take (literals + 257)), .ofLengths (all.drop (literals + 257)))

def inflateStored? (b : ByteArray) (pos : Nat) (out : ByteArray) : Option (Nat × ByteArray) :=
  let offset := (pos + 7) / 8
  match number? b offset 2 with
  | none => none
  | some length =>
    if offset + 4 + length ≤ b.size then
      some (8 * (offset + 4 + length), out ++ b.extract (offset + 4) (offset + 4 + length))
    else none

def inflateBlocks? (b : ByteArray) : Nat → Nat → ByteArray → Option ByteArray
  | 0, _, _ => none
  | fuel + 1, pos, out =>
    match bit? b pos, bits? b (pos + 1) 2 with
    | some last, some kind =>
      let pos := pos + 3
      let block? :=
        match kind with
        | 0 => inflateStored? b pos out
        | 1 => inflateSymbols? b fixedCodes.1 fixedCodes.2 (8 * b.size) pos out
        | 2 =>
          match describedCodes? b pos with
          | none => none
          | some (pos, literals, distances) =>
            inflateSymbols? b literals distances (8 * b.size) pos out
        | _ => none
      match block? with
      | none => none
      | some (pos, out) => if last = 1 then some out else inflateBlocks? b fuel pos out
    | _, _ => none

/-- The bytes that were compressed. Every step takes a bit, so the steps suffice. -/
def inflate? (b : ByteArray) : Option ByteArray :=
  inflateBlocks? b (8 * b.size) 0 ByteArray.empty

end SheetTemplate.Archive
