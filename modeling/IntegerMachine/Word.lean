/-!
# Words

The machine knows one kind of value, the word: a signed 64 bit integer whose arithmetic wraps
around. Cells, arguments and everything that is read or written are words. Sizes (addresses, counts
and limits) are natural numbers.
-/
namespace IntegerMachine

/-- A cell, an argument or a value on a queue. -/
abbrev Word := Int64

namespace Word

def greatest : Word := Int64.maxValue

/-- The greatest number of words that can be held together: at eight bytes each they take less than
    `2 ^ 63` bytes. -/
@[noinline] def capacity : Nat := 1 <<< 60 - 1

def text (w : Word) : String := Int.repr w.toInt

def ofBool (b : Bool) : Word := if b then 1 else 0

/-- The word that stands for a size in a report; sizes no word can hold become the greatest word. -/
def ofSize (n : Nat) : Word := if n < 1 <<< 63 then Int64.ofNat n else greatest

/-- The size a word denotes. Negative words denote none. -/
@[inline] def toSize? (w : Word) : Option Nat := if w < 0 then none else some w.toInt.toNat

def ofInt? (i : Int) : Option Word :=
  if Int64.minValue.toInt ≤ i ∧ i ≤ Int64.maxValue.toInt then some (Int64.ofInt i) else none

def ofText (cs : List Char) : List Word :=
  (cs.flatMap String.utf8EncodeChar).map fun byte => Int64.ofNat byte.toNat

end Word

end IntegerMachine
