import IntegerMachine.Duration
import IntegerMachine.Fault
import IntegerMachine.RunState

/-!
# Failures

The ways in which a call on a machine or on its channel can fail. A failure names the program it
concerns; a fault is wrapped with the instruction it struck.
-/
namespace IntegerMachine

inductive Queue where
  | input
  | output
  deriving DecidableEq

def Queue.text : Queue → String
  | .input => "input"
  | .output => "output"

/-- The calls that are legal in some run states only. -/
inductive Operation where
  | run
  | resume
  | step
  | spawn
  | feed
  | poke
  | readOutput
  | dumpAfterHalt
  /-- Any other call, by its wording. -/
  | named (text : String)
  deriving DecidableEq

def Operation.text : Operation → String
  | .run => "run"
  | .resume => "resume"
  | .step => "step"
  | .spawn => "spawn"
  | .feed => "feed"
  | .poke => "poke memory"
  | .readOutput => "read output"
  | .dumpAfterHalt => "dump memory after halt"
  | .named text => text

inductive Failure where
  | faulted (program : String) (ip : Nat) (instruction : String) (fault : Fault)
  | invalidState (program : String) (operation : Operation) (state : RunState)
  | timeout (program : String) (queue : Queue) (waited : Duration)
  /-- The queue is empty and the machine at rest, so that waiting is pointless. -/
  | closed (program : String) (queue : Queue) (state : RunState)
  /-- No thread could be had; `cause` is the system's reason. -/
  | spawn (cause : String)
  | workerPanicked (program : String)
  /-- More words were asked for than can be held together, or more time than the clock can hold. -/
  | beyondCapacity (program : String)
  /-- The name of the program cannot be that of a thread, since it holds a null character. -/
  | unfitName (program : String)
  deriving DecidableEq

namespace Failure

def message : Failure → String
  | .faulted program ip instruction fault =>
    program ++ ": fault at ip " ++ ip.repr ++ " executing `" ++ instruction ++ "`: " ++ fault.message
  | .invalidState program operation state =>
    program ++ ": cannot " ++ operation.text ++ " while " ++ state.text
  | .timeout program queue waited =>
    program ++ ": nothing arrived on the " ++ queue.text ++ " queue within " ++ waited.text
  | .closed program queue state =>
    program ++ ": " ++ queue.text ++ " queue is empty and the machine is " ++ state.text
  | .spawn cause => "failed to spawn worker: " ++ cause
  | .workerPanicked program => program ++ ": worker thread panicked"
  | .beyondCapacity program => program ++ ": asked for more than can be held"
  | .unfitName program => program ++ ": name holds a null character"

/-- Whether a failure only says that nothing is available right now. -/
def isIdle : Failure → Bool
  | .timeout .. | .closed .. => true
  | _ => false

/-- Whether a failure brings down the thread it strikes instead of being answered. -/
def isBreakdown : Failure → Bool
  | .faulted _ _ _ .beyondCapacity | .beyondCapacity _ | .unfitName _ => true
  | _ => false

def fault? : Failure → Option Fault
  | .faulted _ _ _ fault => some fault
  | _ => none

def cause : Failure → Option String
  | .faulted _ _ _ fault => some fault.message
  | .spawn cause => some cause
  | _ => none

end Failure

end IntegerMachine
