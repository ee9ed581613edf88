import IntegerMachine.Instruction

/-!
# Instruction words

Encoding packs an operation and the modes of its arguments into one word; decoding reads an
instruction from memory. Division and remainder go toward zero, so a word that is not positive
never holds an operation. Digits above those the operation uses are not looked at, and argument
words past the end of memory read as zero.
-/
namespace IntegerMachine

/-- The weight of the mode digit of the first, second and third argument. -/
def modePlaces : List Word := [100, 1000, 10000]

/-- The operation in the two lowest decimal digits of an instruction word. -/
@[inline] def opcodeOf (word : Word) : Except Fault Opcode :=
  match (word % 100).toSize?.bind Opcode.ofCode? with
  | some op => .ok op
  | none => .error (.unknownOpcode word)

@[inline] def modeAt (word place : Word) : Except Fault Mode :=
  let digit := (word / place) % 10
  match Mode.ofDigit? digit with
  | some mode => .ok mode
  | none => .error (.invalidMode word digit)

/-- The mode of the argument with index `n`. Only three arguments have a mode digit. -/
def modeOf? (word : Word) (n : Nat) : Option (Except Fault Mode) :=
  modePlaces[n]?.map (modeAt word)

/-- The word of an operation and the modes of its arguments. Modes beyond its arity are ignored. -/
def encode (op : Opcode) (modes : List Mode) : Word :=
  ((modes.take op.arity).zip modePlaces).foldl (fun word (mode, place) => word + mode.digit * place)
    (Int64.ofNat op.code)

namespace Instruction

def word (i : Instruction) : Word := encode i.opcode (i.arguments.map Argument.mode)

/-- The argument whose word stands at `address`, in the mode given by the digit at `place`. -/
@[inline] def argumentAt (mem : Memory) (word : Word) (address : Nat) (place : Word) :
    Except Fault Argument := do
  let mode ← modeAt word place
  return ⟨mem.peek address, mode⟩

/-- The instruction at an address. Only its own words are read, and memory does not grow. -/
def decode (mem : Memory) (ip : Nat) : Except Fault Instruction := do
  let word := mem.peek ip
  let op ← opcodeOf word
  let first := argumentAt mem word (ip + 1) 100
  let second := argumentAt mem word (ip + 2) 1000
  let third := argumentAt mem word (ip + 3) 10000
  match op with
  | .add => return .add (← first) (← second) (← third)
  | .multiply => return .multiply (← first) (← second) (← third)
  | .lessThan => return .lessThan (← first) (← second) (← third)
  | .equals => return .equals (← first) (← second) (← third)
  | .jumpIfTrue => return .jumpIfTrue (← first) (← second)
  | .jumpIfFalse => return .jumpIfFalse (← first) (← second)
  | .input => return .input (← first)
  | .output => return .output (← first)
  | .adjustRelativeBase => return .adjustRelativeBase (← first)
  | .halt => return .halt

end Instruction

end IntegerMachine
