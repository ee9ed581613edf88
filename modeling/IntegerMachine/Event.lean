import IntegerMachine.Failure
import IntegerMachine.Instruction

/-!
# Events

What machines and their orchestration report while they work. An event has a level, a message and
named fields, all of which are text.
-/
namespace IntegerMachine

inductive Level where
  | trace
  | debug
  | info
  | warn
  | error
  deriving DecidableEq

def Level.name : Level → String
  | .trace => "trace"
  | .debug => "debug"
  | .info => "info"
  | .warn => "warn"
  | .error => "error"

inductive Event where
  | started (program : String) (words : Nat)
  | resumed (program : String) (ip : Nat)
  | executing (program : String) (ip : Nat) (relativeBase : Word) (instruction : Instruction)
  | suspended (program : String) (ip : Nat)
  | ended (program : String) (ip steps : Nat)
  | returning (program : String) (ip steps : Nat) (state : RunState)
  | haltedSilently (program : String) (ip : Nat)
  | halted (program : String) (ip steps : Nat)
  | workerFailed (program : String) (failure : Failure)
  | peerTerminated (source target : String) (dropped : Nat)
  | quiescent (rounds : Nat) (allEnded : Bool)
  | unfinished (rounds : Nat) (state : RunState)
  | endOfInput (program : String)
  | networkUp (nodes : Nat)
  | undeliverable (destination : Word)
  | allStopped
  | incompletePacket (program : String) (destination : Word) (failure : Failure)
  | forwarderStopped (program : String)
  deriving DecidableEq

namespace Event

def boolText (b : Bool) : String := if b then "true" else "false"

def level : Event → Level
  | .executing .. => .trace
  | .halted .. => .info
  | .workerFailed .. => .error
  | .undeliverable .. | .incompletePacket .. => .warn
  | _ => .debug

def message : Event → String
  | .started .. => "started"
  | .resumed .. => "resumed"
  | .executing _ _ _ instruction => instruction.text
  | .suspended .. => "suspended awaiting input"
  | .ended .. => "ended"
  | .returning .. => "returning control"
  | .haltedSilently .. => "halted"
  | .halted .. => "halted"
  | .workerFailed .. => "worker failed"
  | .peerTerminated .. => "peer has terminated"
  | .quiescent .. => "lockstep quiescent"
  | .unfinished .. => "pipeline settled before its last stage ended"
  | .endOfInput .. => "end of input"
  | .networkUp .. => "network up"
  | .undeliverable .. => "supervisor sent a packet to no running node"
  | .allStopped => "every node has stopped"
  | .incompletePacket .. => "dropping incomplete packet"
  | .forwarderStopped .. => "forwarder stopped"

def fields : Event → List (String × String)
  | .started program words => [("program", program), ("words", words.repr)]
  | .resumed program ip => [("program", program), ("ip", ip.repr)]
  | .executing program ip relativeBase _ =>
    [("program", program), ("ip", ip.repr), ("rb", relativeBase.text)]
  | .suspended program ip => [("program", program), ("ip", ip.repr)]
  | .ended program ip steps => [("program", program), ("ip", ip.repr), ("steps", steps.repr)]
  | .returning program ip steps state =>
    [("program", program), ("ip", ip.repr), ("steps", steps.repr), ("state", state.text)]
  | .haltedSilently program ip => [("program", program), ("ip", ip.repr)]
  | .halted program ip steps => [("program", program), ("ip", ip.repr), ("steps", steps.repr)]
  | .workerFailed program failure => [("program", program), ("error", failure.message)]
  | .peerTerminated source target dropped =>
    [("from", source), ("to", target), ("dropped", dropped.repr)]
  | .quiescent rounds allEnded => [("rounds", rounds.repr), ("all_ended", boolText allEnded)]
  | .unfinished rounds state => [("rounds", rounds.repr), ("state", state.text)]
  | .endOfInput program => [("program", program)]
  | .networkUp nodes => [("nodes", nodes.repr)]
  | .undeliverable destination => [("destination", destination.text)]
  | .allStopped => []
  | .incompletePacket program destination failure =>
    [("program", program), ("destination", destination.text), ("error", failure.message)]
  | .forwarderStopped program => [("program", program)]

end Event

end IntegerMachine
