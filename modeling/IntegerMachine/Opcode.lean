import IntegerMachine.Word

/-!
# Operations

The ten operations of the machine. The code of an operation is what the two lowest decimal digits
of an instruction word hold; its arity is the number of argument words that follow.
-/
namespace IntegerMachine

inductive Opcode where
  | add
  | multiply
  | input
  | output
  | jumpIfTrue
  | jumpIfFalse
  | lessThan
  | equals
  | adjustRelativeBase
  | halt
  deriving DecidableEq

namespace Opcode

def all : List Opcode :=
  [.add, .multiply, .input, .output, .jumpIfTrue, .jumpIfFalse, .lessThan, .equals,
    .adjustRelativeBase, .halt]

def name : Opcode → String
  | .add => "Add"
  | .multiply => "Multiply"
  | .input => "Input"
  | .output => "Output"
  | .jumpIfTrue => "JumpIfTrue"
  | .jumpIfFalse => "JumpIfFalse"
  | .lessThan => "LessThan"
  | .equals => "Equals"
  | .adjustRelativeBase => "AdjustRelativeBase"
  | .halt => "Halt"

def code : Opcode → Nat
  | .add => 1
  | .multiply => 2
  | .input => 3
  | .output => 4
  | .jumpIfTrue => 5
  | .jumpIfFalse => 6
  | .lessThan => 7
  | .equals => 8
  | .adjustRelativeBase => 9
  | .halt => 99

def ofCode? (code : Nat) : Option Opcode := all.find? (·.code == code)

/-- The number of argument words that follow the instruction word. -/
def arity : Opcode → Nat
  | .add | .multiply | .lessThan | .equals => 3
  | .jumpIfTrue | .jumpIfFalse => 2
  | .input | .output | .adjustRelativeBase => 1
  | .halt => 0

def size (op : Opcode) : Nat := 1 + op.arity

theorem ofCode?_code (op : Opcode) : ofCode? op.code = some op := by
  cases op <;> rfl

theorem arity_le_three (op : Opcode) : op.arity ≤ 3 := by
  cases op <;> decide

end Opcode

end IntegerMachine
