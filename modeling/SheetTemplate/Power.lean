/-!
Powers, by which numbers are scaled and the ranges of numbers are stated, and sums.
-/
namespace SheetTemplate

def power (base exponent : Nat) : Nat :=
  Nat.pow base exponent

def twoTo (exponent : Nat) : Nat :=
  power 2 exponent

def tenTo (exponent : Nat) : Nat :=
  power 10 exponent

def total : List Nat → Nat
  | [] => 0
  | n :: rest => n + total rest

end SheetTemplate
