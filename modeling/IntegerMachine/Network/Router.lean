import IntegerMachine.Network

/-!
# The router

The router takes packets off the bus and feeds them, word by word, to the nodes they are addressed to. It
asks a supervisor what to do about packets that no running node can receive, and when the network is idle.
It is a sequence of atomic actions, since the nodes read their input and come to rest meanwhile.
-/
namespace IntegerMachine

inductive Notice where
  /-- No running node could receive the packet. -/
  | unroutable (packet : Packet)
  | idle
  deriving DecidableEq

inductive Control where
  | proceed
  | send (packet : Packet)
  | broadcast (payload : List Word)
  | stop
  deriving DecidableEq

/-- A supervisor with a memory of its own. -/
abbrev Supervisor (σ : Type) := σ → Notice → Control × σ

structure NetworkStats where
  delivered : Nat := 0
  unroutable : Nat := 0
  idleEvents : Nat := 0
  deriving DecidableEq

inductive Origin where
  | bus
  | supervisor
  deriving DecidableEq

/-- Where a router stands: the action it is about to take. -/
inductive Router.Phase where
  | receiving
  /-- To look whether the destination of a packet is a running node. -/
  | routing (packet : Packet) (origin : Origin)
  | feeding (index : Nat) (rest : List Word) (packet : Packet) (origin : Origin)
  | surveyingBus
  | surveying (index : Nat)
  | consulting (notice : Notice)
  /-- To look whether a node can receive a broadcast; `reached` nodes have. -/
  | broadcasting (index : Nat) (payload : List Word) (reached : Nat)
  | spreading (index : Nat) (rest payload : List Word) (reached : Nat)
  | stopped
  deriving DecidableEq

structure Router (σ : Type) where
  phase : Router.Phase
  stats : NetworkStats
  supervisor : σ

namespace Router

def new (supervisor : σ) : Router σ := ⟨.receiving, {}, supervisor⟩

def delivered (r : Router σ) : Router σ :=
  { r with phase := .receiving, stats := { r.stats with delivered := r.stats.delivered + 1 } }

def refused (r : Router σ) (net : Network) (packet : Packet) (origin : Origin) :
    Router σ × Network :=
  let stats := { r.stats with unroutable := r.stats.unroutable + 1 }
  match origin with
  | .bus => ({ r with phase := .consulting (.unroutable packet), stats }, net)
  | .supervisor =>
    ({ r with phase := .receiving, stats },
      { net with events := net.events.push (.undeliverable packet.destination) })

def obey (r : Router σ) : Control → Router σ
  | .proceed => { r with phase := .receiving }
  | .send packet => { r with phase := .routing packet .supervisor }
  | .broadcast payload => { r with phase := .broadcasting 0 payload 0 }
  | .stop => { r with phase := .stopped }

/-- One atomic action of the router; `late` tells whether the bus has been silent for too long. -/
def step (supervise : Supervisor σ) (late : Bool) (r : Router σ) (net : Network) :
    Router σ × Network :=
  match r.phase with
  | .receiving =>
    match net.bus with
    | packet :: bus => ({ r with phase := .routing packet .bus }, { net with bus })
    | [] =>
      if net.isDisconnected then
        ({ r with phase := .stopped }, { net with events := net.events.push .allStopped })
      else ({ r with phase := if late then .surveyingBus else .receiving }, net)
  | .routing packet origin =>
    match net.index? packet.destination with
    | none => r.refused net packet origin
    | some index =>
      if net.isLive index then ({ r with phase := .feeding index packet.payload packet origin }, net)
      else r.refused net packet origin
  | .feeding _ [] _ _ => (r.delivered, net)
  | .feeding index (word :: rest) packet origin =>
    match net.feedNode index [word] with
    | (true, net) => ({ r with phase := .feeding index rest packet origin }, net)
    | (false, net) => r.refused net packet origin
  | .surveyingBus => ({ r with phase := if net.bus.isEmpty then .surveying 0 else .receiving }, net)
  | .surveying index =>
    match net.nodes[index]? with
    | none =>
      let stats := { r.stats with idleEvents := r.stats.idleEvents + 1 }
      ({ r with phase := .consulting .idle, stats }, net)
    | some node =>
      let phase := if node.channel.input.isEmpty then .surveying (index + 1) else .receiving
      ({ r with phase }, net)
  | .consulting notice =>
    let (control, supervisor) := supervise r.supervisor notice
    ({ r with supervisor }.obey control, net)
  | .broadcasting index payload reached =>
    match net.nodes[index]? with
    | none =>
      let stats := { r.stats with delivered := r.stats.delivered + reached }
      ({ r with phase := .receiving, stats }, net)
    | some _ =>
      let phase :=
        if net.isLive index then .spreading index payload payload reached
        else .broadcasting (index + 1) payload reached
      ({ r with phase }, net)
  | .spreading index [] payload reached =>
    ({ r with phase := .broadcasting (index + 1) payload (reached + 1) }, net)
  | .spreading index (word :: rest) payload reached =>
    match net.feedNode index [word] with
    | (true, net) => ({ r with phase := .spreading index rest payload reached }, net)
    | (false, net) => ({ r with phase := .broadcasting (index + 1) payload reached }, net)
  | .stopped => (r, net)

def isBlocked (r : Router σ) (net : Network) : Bool :=
  r.phase == .receiving && net.bus.isEmpty && !net.isDisconnected

end Router

end IntegerMachine
