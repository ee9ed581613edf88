import IntegerMachine.Word

/-!
# Decimal numerals

Reading words and sizes from decimal text. A numeral is scanned from the left, and the first place
at which it cannot be continued decides the error: a character that is no digit, or a digit that
carries the value out of range.
-/
namespace IntegerMachine.Numeral

inductive Error where
  | empty
  | invalidDigit
  | tooLarge
  | tooSmall
  deriving DecidableEq

def Error.message : Error → String
  | .empty => "cannot parse integer from empty string"
  | .invalidDigit => "invalid digit found in string"
  | .tooLarge => "number too large to fit in target type"
  | .tooSmall => "number too small to fit in target type"

def digitValue (c : Char) : Nat := c.toNat - '0'.toNat

/-- The value of a run of digits that continues the digits read so far. -/
def valueFrom (value : Nat) (digits : List Char) : Nat :=
  digits.foldl (fun v c => 10 * v + digitValue c) value

def value (digits : List Char) : Nat := valueFrom 0 digits

/-- Scans digits whose value may not exceed `bound`; `overflow` is the error of one that does. -/
def scan (bound : Nat) (overflow : Error) : Nat → List Char → Except Error Nat
  | value, [] => .ok value
  | value, c :: rest =>
    if c.isDigit then
      let next := 10 * value + digitValue c
      if next ≤ bound then scan bound overflow next rest else .error overflow
    else .error .invalidDigit

def scanDigits (bound : Nat) (overflow : Error) : List Char → Except Error Nat
  | [] => .error .invalidDigit
  | digits => scan bound overflow 0 digits

/-- The word a text denotes: an optional sign and at least one digit. -/
def toWord : List Char → Except Error Word
  | [] => .error .empty
  | '-' :: digits => (scanDigits (1 <<< 63) .tooSmall digits).map fun n => Int64.ofInt (-n)
  | '+' :: digits => (scanDigits (1 <<< 63 - 1) .tooLarge digits).map Int64.ofNat
  | digits => (scanDigits (1 <<< 63 - 1) .tooLarge digits).map Int64.ofNat

/-- The size a text denotes: an optional plus sign and at least one digit, below `2 ^ 64`. -/
def toSize : List Char → Except Error Nat
  | [] => .error .empty
  | '+' :: digits => scanDigits (1 <<< 64 - 1) .tooLarge digits
  | digits => scanDigits (1 <<< 64 - 1) .tooLarge digits

end IntegerMachine.Numeral
