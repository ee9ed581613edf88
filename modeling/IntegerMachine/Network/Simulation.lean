import IntegerMachine.Network.Router

/-!
# Running a network

A network runs by interleaving the atomic actions of its workers, its forwarders and the router. Here the
interleaving is a fixed one, driven by a clock of its own: in every turn the workers act for some slices,
each followed by the forwarders as far as they can, then the router acts. Time passes mainly while nothing
moves, and a wait is late once its time has passed.
-/
namespace IntegerMachine

/-- A network with its clock, in microseconds. -/
structure Simulation where
  network : Network
  now : Nat
  /-- Since when each forwarder waits for the payload it is at. -/
  collectingSince : List (Option Nat)

namespace Simulation

/-- The number of slices of a turn. The more workers there are, the fewer. -/
def slices (workers : Nat) : Nat := max 1 (60 / workers)

def turnBudget : Nat := 60000

/-- The number of times a worker may write output or be served the default input in a slice. -/
def sliceYields : Nat := 32

def forwarderActions : Nat := 100000

def routerActions : Nat := 4000

def quietTime : Nat := 1000

/-- The time that passes in a quiet turn of a wait of some length. A wait takes no more than some hundred
    such turns. -/
def quietTimeOf (microseconds : Nat) : Nat := max quietTime (microseconds / 100)

def busyTime : Nat := 20

def ofNetwork (network : Network) : Simulation :=
  ⟨network, 0, List.replicate network.nodes.length none⟩

/-- Lets a worker act for a slice, which is at least as long as its first action takes. -/
def sliceWorker (net : Network) (index : Nat) : Network :=
  let actions := turnBudget / slices net.nodes.length
  { net with
    nodes := net.nodes.modify index fun node =>
      { node with worker := node.worker.slice (max actions (node.worker.delay + 1)) sliceYields } }

def runForwarder (index : Nat) : Nat → Network → Network
  | 0, net => net
  | fuel + 1, net =>
    match net.nodes[index]? with
    | none => net
    | some node =>
      if node.forwarder.isDone || node.forwarder.isBlocked node.channel then net
      else runForwarder index fuel (net.stepForwarder index false)

def expireForwarder (index : Nat) : Nat → Network → Network
  | 0, net => net
  | fuel + 1, net =>
    match net.nodes[index]? with
    | none => net
    | some node =>
      if node.forwarder.isCollecting then
        expireForwarder index fuel (net.stepForwarder index true)
      else net

def isCollecting (net : Network) (index : Nat) : Bool :=
  match net.nodes[index]? with
  | some node => node.forwarder.isCollecting
  | none => false

/-- How long a wait for output of a node goes on, in microseconds. -/
def patience (net : Network) (index : Nat) : Nat :=
  match net.nodes[index]? with
  | some node => node.channel.ioTimeout.microseconds
  | none => 0

def forwarderTurn (sim : Simulation) (index : Nat) : Simulation :=
  let net := runForwarder index forwarderActions sim.network
  let moved :=
    net.bus.length != sim.network.bus.length || net.events.size != sim.network.events.size
  let since := if moved then none else (sim.collectingSince[index]?).join
  if isCollecting net index then
    let since := since.getD sim.now
    if since + patience net index ≤ sim.now then
      let net := runForwarder index forwarderActions (expireForwarder index 4 net)
      let since := if isCollecting net index then some sim.now else none
      { sim with network := net, collectingSince := sim.collectingSince.set index since }
    else
      { sim with
        network := net
        collectingSince := sim.collectingSince.set index (some since) }
  else { sim with network := net, collectingSince := sim.collectingSince.set index none }

def slice (sim : Simulation) : Simulation :=
  let indices := List.range sim.network.nodes.length
  let sim := { sim with network := indices.foldl sliceWorker sim.network }
  indices.foldl forwarderTurn sim

def isAtRest (net : Network) : Bool :=
  net.nodes.all fun node => node.worker.isDone || node.worker.isBlocked

/-- Up to some slices, as long as a worker has something to do. -/
def turnOf : Nat → Simulation → Simulation
  | 0, sim => sim
  | n + 1, sim =>
    let sim := sim.slice
    if isAtRest sim.network then sim else turnOf n sim

def turn (sim : Simulation) : Simulation := sim.turnOf (slices sim.network.nodes.length)

/-- What shows whether anything moved: the lengths of all queues, the counts of output, and how many
    workers and forwarders are still at it. -/
def traffic (net : Network) : List (List Nat) :=
  [net.bus.length, net.events.size] :: net.nodes.map fun node =>
    [node.channel.input.length, node.channel.output.size, node.worker.machine.outputCount,
      if node.worker.isDone then 1 else 0, if node.forwarder.isDone then 1 else 0]

/-- The time until a wait for a payload runs out, or some other limit. -/
def untilDeadline (sim : Simulation) (limit : Nat) : Nat :=
  (List.range sim.network.nodes.length).foldl
    (fun limit index =>
      match (sim.collectingSince[index]?).join with
      | some since => min limit (since + patience sim.network index - sim.now)
      | none => limit)
    limit

def pass (sim : Simulation) (microseconds : Nat) : Simulation := { sim with now := sim.now + microseconds }

def quiesce : Nat → Simulation → Simulation
  | 0, sim => sim
  | fuel + 1, sim =>
    let next := sim.turn
    if traffic next.network = traffic sim.network then next else quiesce fuel (next.pass busyTime)

/-- Lets the workers and forwarders act until a condition holds or some time has passed; `quiet` of it
    passes in a turn. -/
def actFor (enough : Network → Bool) (quiet : Nat) : Nat → Nat → Simulation → Simulation
  | 0, _, sim => sim
  | fuel + 1, microseconds, sim =>
    if enough sim.network then sim
    else
      let next := sim.turn
      if microseconds = 0 then next
      else
        let elapsed := min microseconds (max 1 (next.untilDeadline quiet))
        actFor enough quiet fuel (microseconds - elapsed) (next.pass elapsed)

def sleep (fuel microseconds : Nat) (sim : Simulation) : Simulation :=
  sim.actFor (fun _ => false) (quietTimeOf microseconds) fuel microseconds

/-- Lets the workers and forwarders act while another party waits for `n` words of a node's output: until
    they are there, the node is at rest or the wait runs out. -/
def awaitOutput (fuel index n : Nat) (sim : Simulation) : Simulation :=
  let enough (net : Network) : Bool :=
    match net.nodes[index]? with
    | some node => n ≤ node.channel.output.size || node.channel.state.isTerminal
    | none => true
  let patience := patience sim.network index
  sim.actFor enough (quietTimeOf patience) fuel patience

/-- Lets the workers and forwarders act until a node is at rest, and answers its state. -/
def settle (index : Nat) : Nat → Simulation → Option RunState × Simulation
  | 0, sim => (none, sim)
  | fuel + 1, sim =>
    match sim.network.nodes[index]? with
    | none => (none, sim)
    | some node =>
      if node.channel.state.isTerminal then (some node.channel.state, sim)
      else
        let next := sim.turn
        settle index fuel (next.pass (max 1 (next.untilDeadline quietTime)))

def runRouter (supervise : Supervisor σ) : Nat → Router σ → Network → Router σ × Network
  | 0, r, net => (r, net)
  | fuel + 1, r, net =>
    if r.phase == .stopped || r.isBlocked net then (r, net)
    else
      let (r, net) := r.step supervise false net
      runRouter supervise fuel r net

/-- Lets everything act until the router has stopped. The bus has been silent since `silentSince`. -/
def routeFrom (supervise : Supervisor σ) :
    Nat → Router σ → Nat → Simulation → Option (Router σ × Simulation)
  | 0, _, _, _ => none
  | fuel + 1, r, silentSince, sim =>
    if r.phase == .stopped then some (r, sim)
    else
      let next := sim.turn
      let heard := !next.network.bus.isEmpty
      let moved := heard || traffic next.network != traffic sim.network
      let (r, network) := runRouter supervise routerActions r next.network
      let next := { next with network }
      let silentSince := if heard then next.now else silentSince
      let silence := sim.network.config.idleTimeout.microseconds
      let deadline := silentSince + silence
      if moved then routeFrom supervise fuel r silentSince (next.pass busyTime)
      else if deadline ≤ next.now then
        let (r, network) := r.step supervise true next.network
        let (r, network) := runRouter supervise routerActions r network
        routeFrom supervise fuel r next.now { next with network }
      else
        let elapsed := max 1 (next.untilDeadline (min (quietTimeOf silence) (deadline - next.now)))
        routeFrom supervise fuel r silentSince (next.pass elapsed)

/-- Routes packets until the supervisor says stop or every node has stopped. -/
def route (fuel : Nat) (supervise : Supervisor σ) (supervisor : σ) (sim : Simulation) :
    Option (Router σ × Simulation) :=
  routeFrom supervise fuel (Router.new supervisor) sim.now sim

def stop (sim : Simulation) : Simulation :=
  let net := sim.network
  let indices := List.range net.nodes.length
  let nodes := net.nodes.map fun node => { node with worker := node.worker.halt.2 }
  let net := { net with nodes, shuttingDown := true }
  let net := indices.foldl sliceWorker net
  { sim with network := indices.foldl (fun net index => runForwarder index forwarderActions net) net }

/-- Takes machines back from their threads. The first worker that failed decides the failure. -/
def joinAll (fuel : Nat) : List Node → Option (Except Failure (List Machine))
  | [] => some (.ok [])
  | node :: rest =>
    match node.worker.join fuel with
    | none => none
    | some (.error failure, _) => some (.error failure)
    | some (.ok m, _) => (joinAll fuel rest).map fun machines => machines.map (m :: ·)

/-- Halts every node, and takes the machines back and everything that was reported. -/
def shutdown (fuel : Nat) (sim : Simulation) :
    Option (Except Failure (List Machine) × Array Event) :=
  let sim := sim.stop
  (joinAll fuel sim.network.nodes).map fun machines => (machines, sim.network.allEvents)

end Simulation

end IntegerMachine
