import IntegerMachine.Duration
import IntegerMachine.Memory

/-!
# Configuration

The settings of a machine, fixed when it is made.
-/
namespace IntegerMachine

/-- What a machine does when it needs input and none is queued. -/
inductive ExecutionMode where
  /-- It suspends and leaves it to its caller to feed and resume it. -/
  | cooperative
  /-- It waits on the input queue, as a machine on a thread of its own can. -/
  | worker
  deriving DecidableEq

structure Config where
  name : String := "program"
  mode : ExecutionMode := .cooperative
  /-- Bounds every wait on a queue. -/
  ioTimeout : Duration := .ofMilliseconds 1000
  /-- How often a wait looks whether the machine has come to rest. -/
  pollInterval : Duration := .ofMilliseconds 10
  maxMemory : Nat := Memory.defaultLimit
  /-- What an input instruction receives while the queue is empty, in place of waiting. -/
  defaultInput : Option Word := none
  trace : Bool := false
  deriving DecidableEq

end IntegerMachine
