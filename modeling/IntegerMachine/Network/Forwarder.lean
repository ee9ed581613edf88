import IntegerMachine.Event
import IntegerMachine.Wait

/-!
# Packets and forwarders

Nodes of a network exchange packets: a destination and a fixed number of words. A node just writes words
to its output; its forwarder puts them together into packets and sends those on. A packet whose payload
does not arrive whole is dropped with all words taken for it. If payloads are longer than anything that
can be held, the first one brings the forwarder down. Like a worker, a forwarder is a sequence of atomic
actions.
-/
namespace IntegerMachine

/-- A message to the node whose address is the destination. -/
structure Packet where
  destination : Word
  payload : List Word
  deriving DecidableEq

/-- Where a forwarder stands: the action it is about to take. -/
inductive Forwarder where
  | testing
  | expecting (wait : Wait)
  | collecting (destination : Word) (payload : List Word) (wait : Wait)
  | sending (packet : Packet)
  | stopped
  | collapsed
  deriving DecidableEq

namespace Forwarder

structure Outcome where
  forwarder : Forwarder
  channel : Channel
  sent : Option Packet
  events : Array Event

/-- Goes on with a payload: it is sent once it is complete. -/
def collect (packetSize : Nat) (destination : Word) (payload : List Word) : Forwarder :=
  if payload.length < packetSize then .collecting destination payload .polling
  else .sending ⟨destination, payload⟩

def beginPayload (packetSize : Nat) (destination : Word) : Forwarder :=
  if Word.capacity < packetSize then .collapsed else collect packetSize destination []

/-- One atomic action of a forwarder on the channel of its node; `late` tells whether its wait has run
    out. -/
def step (packetSize : Nat) (shutdown late : Bool) (f : Forwarder) (c : Channel) : Outcome :=
  match f with
  | .testing =>
    if shutdown then ⟨.stopped, c, none, #[.forwarderStopped c.program]⟩
    else ⟨.expecting .polling, c, none, #[]⟩
  | .expecting wait =>
    match wait.step .output late c with
    | (.waiting wait, c) => ⟨.expecting wait, c, none, #[]⟩
    | (.received destination, c) => ⟨beginPayload packetSize destination, c, none, #[]⟩
    | (.closed, c) => ⟨.stopped, c, none, #[.forwarderStopped c.program]⟩
    | (.expired, c) => ⟨.testing, c, none, #[]⟩
  | .collecting destination payload wait =>
    match wait.step .output late c with
    | (.waiting wait, c) => ⟨.collecting destination payload wait, c, none, #[]⟩
    | (.received word, c) => ⟨collect packetSize destination (payload ++ [word]), c, none, #[]⟩
    | (.closed, c) =>
      ⟨.testing, c, none, #[.incompletePacket c.program destination (c.closed .output)]⟩
    | (.expired, c) =>
      ⟨.testing, c, none, #[.incompletePacket c.program destination (c.timedOut .output)]⟩
  | .sending packet => ⟨.testing, c, some packet, #[]⟩
  | .stopped => ⟨.stopped, c, none, #[]⟩
  | .collapsed => ⟨.collapsed, c, none, #[]⟩

def isDone : Forwarder → Bool
  | .stopped | .collapsed => true
  | _ => false

def isBlocked (f : Forwarder) (c : Channel) : Bool :=
  match f with
  | .expecting _ | .collecting .. => Wait.isBlocked .output c
  | _ => false

def isCollecting : Forwarder → Bool
  | .collecting .. => true
  | _ => false

end Forwarder

end IntegerMachine
