import IntegerMachine.Encoding

/-!
# Listings

A listing shows words as one line per instruction, each led by its address. Words that do not decode,
and instructions that the end of the words cuts off, are listed as data one word at a time.
-/
namespace IntegerMachine.Listing

inductive Content where
  | code (instruction : Instruction)
  | data (word : Word)
  deriving DecidableEq

structure Line where
  address : Nat
  content : Content
  deriving DecidableEq

def Content.size : Content → Nat
  | .code i => i.size
  | .data _ => 1

def Content.text : Content → String
  | .code i => i.text
  | .data w => "Data(" ++ w.text ++ ")"

/-- An address in at least four digits. -/
def addressText (address : Nat) : String :=
  let digits := address.repr
  "".pushn '0' (4 - digits.length) ++ digits

def Line.text (line : Line) : String :=
  addressText line.address ++ "  " ++ line.content.text ++ "\n"

def contentAt (mem : Memory) (address : Nat) : Content :=
  match Instruction.decode mem address with
  | .ok i => if address + i.size ≤ mem.size then .code i else .data (mem.peek address)
  | .error _ => .data (mem.peek address)

theorem size_pos (content : Content) : 0 < content.size := by
  cases content with
  | code i => simp only [Content.size, Instruction.size, Opcode.size]; omega
  | data w => exact Nat.one_pos

def linesFrom (mem : Memory) (address : Nat) : List Line :=
  if address < mem.size then
    let content := contentAt mem address
    ⟨address, content⟩ :: linesFrom mem (address + content.size)
  else []
  termination_by mem.size - address
  decreasing_by
    have := size_pos (contentAt mem address)
    omega

def lines (words : List Word) : List Line := linesFrom (Memory.ofProgram words Memory.defaultLimit) 0

def disassemble (words : List Word) : String := String.join ((lines words).map Line.text)

end IntegerMachine.Listing
