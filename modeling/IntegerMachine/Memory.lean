import IntegerMachine.Addressing
import IntegerMachine.Fault

/-!
# Memory

A growing row of cells that holds both code and data. Cells past the end read as zero. Loading from
or storing to such a cell first extends the row with zeros up to it, unless the address lies at or
beyond the limit, or beyond what any memory can hold. Memory never shrinks, and an access that faults
leaves it as it was.
-/
namespace IntegerMachine

/-- Cells from address zero up, and the number of cells growth may reach. -/
structure Memory where
  cells : Array Word
  limit : Nat
  deriving DecidableEq

namespace Memory

def defaultLimit : Nat := 1 <<< 24

/-- Memory that holds a program. A program longer than the limit keeps its cells. -/
def ofProgram (program : List Word) (limit : Nat) : Memory := ⟨program.toArray, limit⟩

@[inline] def size (mem : Memory) : Nat := mem.cells.size

/-- The contents of a cell, zero past the end. -/
@[inline] def peek (mem : Memory) (address : Nat) : Word := mem.cells.getD address 0

theorem peek_of_size_le {mem : Memory} {address : Nat} (outside : mem.size ≤ address) : mem.peek address = 0 := by
  unfold peek
  rw [Array.getD_eq_getD_getElem?, Array.getElem?_eq_none outside]
  rfl

@[inline] def address (word : Word) : Except Fault Nat :=
  match word.toSize? with
  | some address => .ok address
  | none => .error (.negativeAddress word)

/-- Whether a cell exists or growth may reach it. -/
@[inline] def admits (mem : Memory) (address : Nat) : Bool := address < mem.size || address < mem.limit

@[inline] def refusal? (mem : Memory) (address : Nat) : Option Fault :=
  if mem.admits address then
    if address < Word.capacity then none else some .beyondCapacity
  else some (.addressOutOfRange (Word.ofSize address))

/-- Memory extended with zeros so that it has a cell at `address`. -/
def reach (mem : Memory) (address : Nat) : Memory :=
  if address < mem.size then mem
  else { mem with cells := mem.cells ++ Array.replicate (address + 1 - mem.size) 0 }

/-- Memory with a cell overwritten; the cell must exist. -/
def write (mem : Memory) (address : Nat) (value : Word) : Memory :=
  { mem with cells := mem.cells.setIfInBounds address value }

@[inline] def readCell (address : Nat) : EStateM Fault Memory Word := fun mem =>
  match mem.refusal? address with
  | some fault => .error fault mem
  | none =>
    let mem := mem.reach address
    .ok (mem.peek address) mem

/-- Overwrites a cell, growing memory as needed, and answers its previous contents. -/
def poke (address : Nat) (value : Word) : EStateM Fault Memory Word := fun mem =>
  match mem.refusal? address with
  | some fault => .error fault mem
  | none =>
    let mem := mem.reach address
    let previous := mem.peek address
    .ok previous (mem.write address value)

/-- The value of an argument: an immediate argument is its own value, any other names a cell. -/
def load (a : Argument) (relativeBase : Word) : EStateM Fault Memory Word := fun mem =>
  match a.effectiveAddress relativeBase with
  | none => .ok a.value mem
  | some word =>
    match address word with
    | .ok address => readCell address mem
    | .error fault => .error fault mem

/-- Writes to the cell an argument names and answers its previous contents. Immediate arguments name
    no cell. -/
def store (a : Argument) (relativeBase value : Word) : EStateM Fault Memory Word := fun mem =>
  match a.effectiveAddress relativeBase with
  | none => .error .immediateStore mem
  | some word =>
    match address word with
    | .ok address => poke address value mem
    | .error fault => .error fault mem

end Memory

end IntegerMachine
