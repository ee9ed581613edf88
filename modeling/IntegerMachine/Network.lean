import IntegerMachine.Network.Forwarder
import IntegerMachine.Worker

/-!
# Networks

A network runs every machine as a worker. A node's address is its index. Nodes never talk to each other
directly: their forwarders put packets on one bus, from which a router feeds them to the nodes they are
addressed to.
-/
namespace IntegerMachine

structure NetworkConfig where
  /-- The number of words that follow the destination in a packet. -/
  packetSize : Nat := 2
  /-- How long the bus must be silent before the network can count as idle. -/
  idleTimeout : Duration := .ofMilliseconds 50
  /-- What a node receives while its input is empty, unless its own settings say otherwise. -/
  idleInput : Option Word := some (-1)
  bootWithAddress : Bool := true
  deriving DecidableEq

structure Node where
  worker : Worker
  forwarder : Forwarder

structure Network where
  config : NetworkConfig
  nodes : List Node
  /-- The packets on their way, oldest first. -/
  bus : List Packet
  shuttingDown : Bool
  events : Array Event

namespace Node

def channel (n : Node) : Channel := n.worker.channel

def withChannel (n : Node) (channel : Channel) : Node :=
  { n with worker := n.worker.withChannel channel }

/-- Prepares a machine for an address and moves it to its thread. -/
def boot (config : NetworkConfig) (address : Nat) (m : Machine) : Except Failure Node := do
  let channel ←
    if config.bootWithAddress then m.channel.feed (Int64.ofNat address) else .ok m.channel
  let defaultInput := m.config.defaultInput.or config.idleInput
  let worker ← Worker.spawn { m with channel, config := { m.config with defaultInput } }
  return ⟨worker, .testing⟩

end Node

namespace Network

def bootAll (config : NetworkConfig) : Nat → List Machine → Except Failure (List Node)
  | _, [] => .ok []
  | address, m :: rest => do
    let node ← Node.boot config address m
    return node :: (← bootAll config (address + 1) rest)

def spawn (machines : List Machine) (config : NetworkConfig) : Except Failure Network := do
  let nodes ← bootAll config 0 machines
  return ⟨config, nodes, [], false, #[.networkUp nodes.length]⟩

def index? (net : Network) (address : Word) : Option Nat :=
  match address.toSize? with
  | some index => if index < net.nodes.length then some index else none
  | none => none

def channel? (net : Network) (address : Word) : Option Channel :=
  (net.index? address).bind fun index => net.nodes[index]?.map Node.channel

def withChannel (net : Network) (index : Nat) (channel : Channel) : Network :=
  { net with nodes := net.nodes.modify index fun node => node.withChannel channel }

/-- Whether the bus and all inputs are empty. -/
def isIdle (net : Network) : Bool :=
  net.bus.isEmpty && net.nodes.all fun node => node.channel.input.isEmpty

/-- Feeds words to a node as long as it accepts them, and tells whether it took them all. -/
def feedNode (net : Network) (index : Nat) : List Word → Bool × Network
  | [] => (true, net)
  | word :: rest =>
    match net.nodes[index]? with
    | none => (false, net)
    | some node =>
      match node.channel.feed word with
      | .error _ => (false, net)
      | .ok channel => feedNode (net.withChannel index channel) index rest

def isLive (net : Network) (index : Nat) : Bool :=
  match net.nodes[index]? with
  | some node => !node.channel.state.isTerminal
  | none => false

/-- Feeds a payload to its destination, and tells whether it arrived. -/
def deliver (net : Network) (packet : Packet) : Bool × Network :=
  match net.index? packet.destination with
  | some index => if net.isLive index then net.feedNode index packet.payload else (false, net)
  | none => (false, net)

/-- Feeds a payload to the nodes with the given indices that are not at rest, and counts them. -/
def broadcastTo (payload : List Word) : List Nat → Network → Nat × Network
  | [], net => (0, net)
  | index :: rest, net =>
    if net.isLive index then
      let (reached, net) := net.feedNode index payload
      let (count, net) := broadcastTo payload rest net
      (count + if reached then 1 else 0, net)
    else broadcastTo payload rest net

def broadcast (net : Network) (payload : List Word) : Nat × Network :=
  broadcastTo payload (List.range net.nodes.length) net

def stepWorker (net : Network) (index : Nat) (late : Bool) : Network :=
  { net with
    nodes := net.nodes.modify index fun node => { node with worker := node.worker.step late } }

def stepForwarder (net : Network) (index : Nat) (late : Bool) : Network :=
  match net.nodes[index]? with
  | none => net
  | some node =>
    match node.forwarder.step net.config.packetSize net.shuttingDown late node.channel with
    | ⟨forwarder, channel, sent, events⟩ =>
      { net with
        nodes := net.nodes.modify index fun node => { node.withChannel channel with forwarder }
        bus :=
          match sent with
          | some packet => net.bus ++ [packet]
          | none => net.bus
        events := net.events ++ events }

/-- Whether no packet can reach the bus any more. -/
def isDisconnected (net : Network) : Bool :=
  net.nodes.all fun node => node.forwarder.isDone

def allEvents (net : Network) : Array Event :=
  net.nodes.foldl (fun events node => events ++ node.worker.events) net.events

end Network

end IntegerMachine
