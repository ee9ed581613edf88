import IntegerMachine.Word

/-!
# Addressing modes and arguments

An argument is a word as it stands in memory together with the mode in which it is resolved: as an
absolute address, as the value itself, or as an address counted from the relative base.
-/
namespace IntegerMachine

inductive Mode where
  | position
  | immediate
  | relative
  deriving DecidableEq, Inhabited

namespace Mode

def all : List Mode := [.position, .immediate, .relative]

def name : Mode → String
  | .position => "Position"
  | .immediate => "Immediate"
  | .relative => "Relative"

def digit : Mode → Word
  | .position => 0
  | .immediate => 1
  | .relative => 2

/-- The mode of a digit. Digits above two stand for none. -/
@[inline] def ofDigit? (d : Word) : Option Mode :=
  if d = 0 then some .position
  else if d = 1 then some .immediate
  else if d = 2 then some .relative
  else none

theorem ofDigit?_digit (mode : Mode) : ofDigit? mode.digit = some mode := by
  cases mode <;> decide

end Mode

structure Argument where
  value : Word
  mode : Mode
  deriving DecidableEq

namespace Argument

/-- The address an argument refers to once the relative base is added. Immediate arguments refer to
    none. The address may be negative. -/
@[inline] def effectiveAddress (a : Argument) (relativeBase : Word) : Option Word :=
  match a.mode with
  | .position => some a.value
  | .relative => some (a.value + relativeBase)
  | .immediate => none

def text (a : Argument) : String :=
  match a.mode with
  | .position => "M[" ++ a.value.text ++ "]"
  | .immediate => a.value.text
  | .relative =>
    if a.value < 0 then "M[rb-" ++ (-a.value).text ++ "]" else "M[rb+" ++ a.value.text ++ "]"

end Argument

end IntegerMachine
