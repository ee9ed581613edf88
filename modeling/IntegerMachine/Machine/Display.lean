import IntegerMachine.Machine
import IntegerMachine.Table

/-!
# Pictures of a machine

Tables of memory and of the registers. The cell at the instruction pointer is marked with an arrow.
-/
namespace IntegerMachine

namespace Memory

def tableRow (mem : Memory) (marked : Option Nat) (address : Nat) : List Cell :=
  let label := "M[" ++ address.repr ++ "] ="
  [Cell.right (if marked = some address then "* --> " ++ label else label),
    Cell.left (mem.peek address).text]

/-- A table of the cells from `start` up to but not including `stop`, as far as they exist. -/
def table (mem : Memory) (start stop : Nat) (marked : Option Nat) : Table :=
  let stop := min stop mem.size
  let start := min start stop
  { titles := [Cell.right "Address", Cell.left "Contents"]
    rows := (List.range' start (stop - start)).map (mem.tableRow marked) }

end Memory

namespace Machine

def dumpRange (m : Machine) (start stop : Nat) : String :=
  (m.memory.table start stop (some m.ip)).render

def dump (m : Machine) : String := m.dumpRange 0 m.memory.size

/-- The cells behind the halt instruction of a program that has ended, usually its data. -/
def dumpAfterHalt (m : Machine) : Except Failure String :=
  if m.state = .ended then .ok (m.dumpRange m.ip m.memory.size)
  else .error (m.invalidState .dumpAfterHalt)

def registerTable (m : Machine) : Table where
  titles := [Cell.right "Register", Cell.left "Contents"]
  rows :=
    [[Cell.right "IP =", Cell.left m.ip.repr],
      [Cell.right "RB =", Cell.left m.relativeBase.text],
      [Cell.right "Steps =", Cell.left m.steps.repr],
      [Cell.right "Outputs =", Cell.left m.outputCount.repr],
      [Cell.right "Input =", Cell.left m.channel.input.length.repr]]

/-- The registers, and the cells around the instruction pointer. -/
def display (m : Machine) : String :=
  let around := m.memory.table (m.ip - 4) (m.ip + 12) (some m.ip)
  let both : Table :=
    { titles := [Cell.left "Registers", Cell.left "Memory"]
      rows := [[m.registerTable.toCell, around.toCell]] }
  "Program: " ++ m.name ++ "\tState: " ++ m.state.text ++ "\n" ++ both.render

end Machine

end IntegerMachine
