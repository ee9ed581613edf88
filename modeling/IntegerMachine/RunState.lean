/-!
# Run states

A machine starts out initialising, runs, may stop for input and run on, and comes to rest either by
its own halt instruction (ended) or because it was halted from outside or by a fault.
-/
namespace IntegerMachine

inductive RunState where
  | initialising
  | running
  | awaitingInput
  | ended
  | halted
  deriving DecidableEq

namespace RunState

def all : List RunState := [.initialising, .running, .awaitingInput, .ended, .halted]

def ofCode? (code : Nat) : Option RunState := all[code]?

def text : RunState → String
  | .initialising => "initialising"
  | .running => "running"
  | .awaitingInput => "awaiting input"
  | .ended => "ended"
  | .halted => "halted"

/-- Whether a machine in this state has come to rest for good. -/
def isTerminal : RunState → Bool
  | .ended | .halted => true
  | _ => false

end RunState

end IntegerMachine
