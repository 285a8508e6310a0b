namespace RegisterAllocation

abbrev Word := Int64

namespace Word

def bytes : Word := 8

def text (w : Word) : String := toString w.toInt

def ofInt? (n : Int) : Option Word :=
  if Int64.minValue.toInt ≤ n ∧ n ≤ Int64.maxValue.toInt then some (Int64.ofInt n) else none

-- Takes in one more decimal digit. Past the largest word the value wraps around, and a digit is
-- refused only if it leaves less than there was.
def extend? (w : Word) (digit : Nat) : Option Word :=
  let next := 10 * w + Int64.ofNat digit
  if next < w then none else some next

def digitsOf (n : Nat) : List Nat := (Nat.toDigits 10 n).map fun c => c.toNat - '0'.toNat

-- The word that a decimal number is taken for, digit by digit. A number in range stands for itself;
-- one below the range is refused.
def ofDecimal? (n : Int) : Option Word :=
  match ofInt? n with
  | some w => some w
  | none => if n < 0 then none else (digitsOf n.toNat).foldlM extend? 0

def digitsValue? (cs : List Char) : Option Nat :=
  if cs ≠ [] ∧ cs.all Char.isDigit then
    some (cs.foldl (fun n c => 10 * n + (c.toNat - '0'.toNat)) 0)
  else none

def read? (s : String) : Option Word :=
  match s.toList with
  | '-' :: cs => (digitsValue? cs).bind fun n => ofInt? (-n)
  | '+' :: cs => (digitsValue? cs).bind fun n => ofInt? n
  | cs => (digitsValue? cs).bind fun n => ofInt? n

end Word

end RegisterAllocation
