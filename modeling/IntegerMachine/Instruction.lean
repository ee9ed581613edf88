import IntegerMachine.Addressing
import IntegerMachine.Opcode
import IntegerMachine.Memory

/-!
# Instructions

An instruction is an operation bound to its arguments. In memory it is an instruction word, which
packs the code of the operation into its two lowest decimal digits and one mode digit per argument
above those, followed by one word per argument. Instructions are never kept in decoded form: a
program may overwrite its own code, so each is decoded afresh when it is fetched.
-/
namespace IntegerMachine

inductive Instruction where
  | add (lhs rhs dest : Argument)
  | multiply (lhs rhs dest : Argument)
  | lessThan (lhs rhs dest : Argument)
  | equals (lhs rhs dest : Argument)
  | jumpIfTrue (condition target : Argument)
  | jumpIfFalse (condition target : Argument)
  | input (dest : Argument)
  | output (source : Argument)
  | adjustRelativeBase (offset : Argument)
  | halt
  deriving DecidableEq

namespace Instruction

def opcode : Instruction → Opcode
  | .add .. => .add
  | .multiply .. => .multiply
  | .lessThan .. => .lessThan
  | .equals .. => .equals
  | .jumpIfTrue .. => .jumpIfTrue
  | .jumpIfFalse .. => .jumpIfFalse
  | .input .. => .input
  | .output .. => .output
  | .adjustRelativeBase .. => .adjustRelativeBase
  | .halt => .halt

def arguments : Instruction → List Argument
  | .add lhs rhs dest | .multiply lhs rhs dest | .lessThan lhs rhs dest | .equals lhs rhs dest =>
    [lhs, rhs, dest]
  | .jumpIfTrue condition target | .jumpIfFalse condition target => [condition, target]
  | .input dest => [dest]
  | .output source => [source]
  | .adjustRelativeBase offset => [offset]
  | .halt => []

/-- Binds an operation to the first arguments of a list. There is no result if they are too few;
    further arguments are ignored. -/
def bind? : Opcode → List Argument → Option Instruction
  | .add, lhs :: rhs :: dest :: _ => some (.add lhs rhs dest)
  | .multiply, lhs :: rhs :: dest :: _ => some (.multiply lhs rhs dest)
  | .lessThan, lhs :: rhs :: dest :: _ => some (.lessThan lhs rhs dest)
  | .equals, lhs :: rhs :: dest :: _ => some (.equals lhs rhs dest)
  | .jumpIfTrue, condition :: target :: _ => some (.jumpIfTrue condition target)
  | .jumpIfFalse, condition :: target :: _ => some (.jumpIfFalse condition target)
  | .input, dest :: _ => some (.input dest)
  | .output, source :: _ => some (.output source)
  | .adjustRelativeBase, offset :: _ => some (.adjustRelativeBase offset)
  | .halt, _ => some .halt
  | _, _ => none

def size (i : Instruction) : Nat := i.opcode.size

def text (i : Instruction) : String :=
  match i.arguments with
  | [] => i.opcode.name
  | args => i.opcode.name ++ "(" ++ ", ".intercalate (args.map Argument.text) ++ ")"

theorem length_arguments (i : Instruction) : i.arguments.length = i.opcode.arity := by
  cases i <;> rfl

theorem bind?_arguments (i : Instruction) : bind? i.opcode i.arguments = some i := by
  cases i <;> rfl

end Instruction

end IntegerMachine
