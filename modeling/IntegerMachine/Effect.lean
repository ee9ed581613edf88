import IntegerMachine.Instruction

/-!
# Effects

Carrying out an instruction has two parts. The first concerns memory alone: operands are read, results
written and jump targets checked. What it leaves to be done, the effect, concerns the registers, the
queues or the run state of a machine.
-/
namespace IntegerMachine

/-- What an evaluated instruction still asks of its machine. -/
inductive Effect where
  | advance
  | jump (target : Nat)
  | rebase (relativeBase : Word)
  | input (dest : Argument)
  | output (value : Word)
  | halt
  deriving DecidableEq

namespace Effect

def combine (f : Word → Word → Word) (lhs rhs dest : Argument) (relativeBase : Word) :
    EStateM Fault Memory Effect := do
  let x ← Memory.load lhs relativeBase
  let y ← Memory.load rhs relativeBase
  let _ ← Memory.store dest relativeBase (f x y)
  return .advance

/-- A jump to where an argument says. The target must be the address of a cell, where memory is taken
    as it is after the argument was read. -/
def jumpTo (target : Argument) (relativeBase : Word) : EStateM Fault Memory Effect := do
  let word ← Memory.load target relativeBase
  let mem ← get
  match word.toSize? with
  | some address => if address < mem.size then return .jump address else throw (.jumpOutOfBounds word)
  | none => throw (.jumpOutOfBounds word)

/-- Jumps if the value of the condition passes the test; only then is the target read. -/
def jumpWhen (test : Word → Bool) (condition target : Argument) (relativeBase : Word) :
    EStateM Fault Memory Effect := do
  let x ← Memory.load condition relativeBase
  if test x then jumpTo target relativeBase else return .advance

end Effect

/-- Evaluates an instruction against memory. Input instructions store only once they have received a
    value. -/
def Instruction.evaluate (i : Instruction) (relativeBase : Word) : EStateM Fault Memory Effect :=
  match i with
  | .add lhs rhs dest => Effect.combine (· + ·) lhs rhs dest relativeBase
  | .multiply lhs rhs dest => Effect.combine (· * ·) lhs rhs dest relativeBase
  | .lessThan lhs rhs dest =>
    Effect.combine (fun x y => Word.ofBool (decide (x < y))) lhs rhs dest relativeBase
  | .equals lhs rhs dest =>
    Effect.combine (fun x y => Word.ofBool (decide (x = y))) lhs rhs dest relativeBase
  | .jumpIfTrue condition target => Effect.jumpWhen (· != 0) condition target relativeBase
  | .jumpIfFalse condition target => Effect.jumpWhen (· == 0) condition target relativeBase
  | .input dest => return .input dest
  | .output source => return .output (← Memory.load source relativeBase)
  | .adjustRelativeBase offset => return .rebase (relativeBase + (← Memory.load offset relativeBase))
  | .halt => return .halt

end IntegerMachine
