import IntegerMachine.Channel
import IntegerMachine.Event
import IntegerMachine.ProgramText

/-!
# Machines

A machine is its memory, its registers, the channel through which it talks to the world, and counts of
what it has done. Calls on a machine are functions that answer an outcome: a result, the machine as the
call leaves it, and the events reported on the way.
-/
namespace IntegerMachine

structure Machine where
  config : Config
  memory : Memory
  ip : Nat
  relativeBase : Word
  channel : Channel
  steps : Nat
  /-- The number of words written to the output, consumed or not. -/
  outputCount : Nat
  lastOutput : Option Word
  deriving DecidableEq

/-- What a call on a machine comes to. -/
structure Outcome (α : Type) where
  result : Except Failure α
  machine : Machine
  events : Array Event

namespace Machine

def ofProgram (program : List Word) (config : Config) : Machine where
  config := config
  memory := Memory.ofProgram program config.maxMemory
  ip := 0
  relativeBase := 0
  channel := Channel.ofConfig config
  steps := 0
  outputCount := 0
  lastOutput := none

def ofText (text : String) (config : Config) : Except ProgramText.Error Machine :=
  (ProgramText.parse text).map fun program => ofProgram program config

def name (m : Machine) : String := m.config.name

def state (m : Machine) : RunState := m.channel.state

def mapChannel (m : Machine) (f : Channel → Channel) : Machine := { m with channel := f m.channel }

def invalidState (m : Machine) (operation : Operation) : Failure :=
  .invalidState m.name operation m.state

/-- An outcome that leaves the machine as it is and reports nothing. -/
def answer (m : Machine) (result : Except Failure α) : Outcome α := ⟨result, m, #[]⟩

end Machine

end IntegerMachine
