import IntegerMachine.Machine.Lifecycle
import IntegerMachine.Wait

/-!
# Workers

A worker is a machine on a thread of its own. It resumes the machine over and over until the program has
ended, faulted or been halted; a wait for input that runs out is simply begun again. Other parties act on
the channel of the machine meanwhile, so the worker is modelled as a sequence of atomic actions: each
reads or changes the run state once, or acts on a queue once, or changes only what is private to the
machine. An interleaving is a list of such actions and of what the others do.
-/
namespace IntegerMachine

/-- Where a worker stands: the action it is about to take. -/
inductive Worker.Phase where
  /-- To look at the run state and decide how to go on. -/
  | resuming
  | starting
  | reviving
  | checking
  | dispatching
  | reading (pending : Pending) (dest : Argument)
  | waiting (pending : Pending) (dest : Argument) (wait : Wait)
  | storing (pending : Pending) (dest : Argument) (word : Word)
  /-- To look at the run state after no input could be had. -/
  | unanswered (pending : Pending)
  | suspending (pending : Pending)
  | emitting (word : Word)
  | ending (start : Nat)
  | halting (failure : Failure)
  /-- To look at the run state after a call failed. -/
  | recovering (failure : Failure)
  | returning
  | finished
  | failed (failure : Failure)
  /-- The thread broke down, and the machine with it. -/
  | collapsed
  deriving DecidableEq

structure Worker where
  machine : Machine
  phase : Worker.Phase
  events : Array Event

namespace Worker

/-- Moves a machine to a thread of its own, which takes its name, and where it waits for input instead of
    suspending. A machine at rest cannot be moved. -/
def spawn (m : Machine) : Except Failure Worker :=
  if m.state.isTerminal then .error (m.invalidState .spawn)
  else if '\x00' ∈ m.name.toList then .error (.unfitName m.name)
  else .ok ⟨{ m with config := { m.config with mode := .worker } }, .resuming, #[]⟩

def channel (w : Worker) : Channel := w.machine.channel

/-- What another party does to the channel of the machine. -/
def withChannel (w : Worker) (channel : Channel) : Worker :=
  { w with machine := { w.machine with channel } }

def halt (w : Worker) : Bool × Worker :=
  let (changed, channel) := w.channel.halt
  (changed, w.withChannel channel)

/-- Settles the effect of an evaluated instruction as far as it is private, or turns to the action on
    the channel that it asks for. -/
def settle (m : Machine) (p : Pending) (events : Array Event) : Worker :=
  match p.effect with
  | .advance => ⟨m.counted, .checking, events⟩
  | .jump target => ⟨{ m with ip := target, steps := m.steps + 1 }, .checking, events⟩
  | .rebase relativeBase => ⟨{ m with relativeBase, steps := m.steps + 1 }, .checking, events⟩
  | .output word => ⟨m, .emitting word, events⟩
  | .halt => ⟨m, .ending p.start, events⟩
  | .input dest => ⟨m, .reading p dest, events⟩

/-- Takes a word for an input instruction: a queued one, else the default. Without either the worker
    begins to wait. -/
def read (m : Machine) (p : Pending) (dest : Argument) (events : Array Event) : Worker :=
  match m.channel.pop? .input with
  | some (word, channel) => ⟨{ m with channel }, .storing p dest word, events⟩
  | none =>
    match m.config.defaultInput with
    | some word => ⟨m, .storing p dest word, events⟩
    | none => ⟨m, .waiting p dest .polling, events⟩

/-- One action of a wait for input. A wait that runs out puts the pointer back to the input
    instruction. -/
def await (late : Bool) (m : Machine) (p : Pending) (dest : Argument) (wait : Wait)
    (events : Array Event) : Worker :=
  match wait.step .input late m.channel with
  | (.waiting wait, channel) => ⟨{ m with channel }, .waiting p dest wait, events⟩
  | (.received word, channel) => ⟨{ m with channel }, .storing p dest word, events⟩
  | (.closed, channel) => ⟨{ m with channel }, .unanswered p, events⟩
  | (.expired, channel) =>
    ⟨{ m with channel, ip := p.start }, .recovering (channel.timedOut .input), events⟩

/-- Turns to halting the machine after a fault, unless the fault brings the thread down. -/
def strike (m : Machine) (failure : Failure) (events : Array Event) : Worker :=
  if failure.isBreakdown then ⟨m, .collapsed, events⟩ else ⟨m, .halting failure, events⟩

/-- One atomic action of a worker; `late` tells whether a wait has run out. -/
def step (late : Bool) (w : Worker) : Worker :=
  match w with
  | ⟨m, phase, events⟩ =>
    match phase with
    | .resuming =>
      match m.state with
      | .initialising => ⟨m, .starting, events⟩
      | .running => ⟨m, .checking, events⟩
      | .awaitingInput => ⟨m, .reviving, events⟩
      | .ended | .halted => ⟨m, .recovering (m.invalidState .resume), events⟩
    | .starting =>
      match m.start with
      | ⟨.ok (), m, more⟩ => ⟨m, .checking, events ++ more⟩
      | ⟨.error failure, m, more⟩ => ⟨m, .recovering failure, events ++ more⟩
    | .reviving =>
      match m.channel.transition? .awaitingInput .running with
      | some channel => ⟨{ m with channel }, .checking, events.push (.resumed m.name m.ip)⟩
      | none => ⟨m, .recovering (m.invalidState .resume), events⟩
    | .checking => if m.state = .running then ⟨m, .dispatching, events⟩ else ⟨m, .returning, events⟩
    | .dispatching =>
      match m.dispatch with
      | ⟨.ok p, m, more⟩ => settle m p (events ++ more)
      | ⟨.error failure, m, more⟩ => strike m failure (events ++ more)
    | .reading p dest => read m p dest events
    | .waiting p dest wait => await late m p dest wait events
    | .storing p dest word =>
      match m.receive p.start p.instruction dest word with
      | (.ok (), m) => ⟨m, .checking, events⟩
      | (.error failure, m) => strike m failure events
    | .unanswered p =>
      if m.state = .running then ⟨m, .suspending p, events⟩
      else ⟨{ m with ip := p.start }, .checking, events⟩
    | .suspending p =>
      match m.suspend p.start #[] with
      | ⟨_, m, more⟩ => ⟨m, .checking, events ++ more⟩
    | .emitting word => ⟨(m.emit word).counted, .checking, events⟩
    | .ending start =>
      match m.finish start #[] with
      | ⟨_, m, more⟩ => ⟨m, .checking, events ++ more⟩
    | .halting failure =>
      ⟨m.halted, .failed failure, events.push (.workerFailed m.name failure)⟩
    | .recovering failure =>
      if m.state.isTerminal then ⟨m, .finished, events⟩
      else if failure.isIdle then ⟨m, .resuming, events⟩
      else ⟨m, .failed failure, events.push (.workerFailed m.name failure)⟩
    | .returning => ⟨m, .finished, events.push (.returning m.name m.ip m.steps m.state)⟩
    | .finished => ⟨m, .finished, events⟩
    | .failed failure => ⟨m, .failed failure, events⟩
    | .collapsed => ⟨m, .collapsed, events⟩

def isDone (w : Worker) : Bool :=
  match w.phase with
  | .finished | .failed _ | .collapsed => true
  | _ => false

def isBlocked (w : Worker) : Bool :=
  match w.phase with
  | .waiting .. => Wait.isBlocked .input w.channel
  | _ => false

/-- Whether the worker is about to write output or to be served the default input. -/
def isYielding (w : Worker) : Bool :=
  match w.phase with
  | .reading .. => w.channel.input.isEmpty && w.machine.config.defaultInput.isSome
  | .emitting _ => true
  | _ => false

/-- The number of cells that memory grows by in the time of one action. -/
def growthPerAction : Nat := 40

def growthFor (m : Machine) (a : Argument) : Nat :=
  match (a.effectiveAddress m.relativeBase).bind Word.toSize? with
  | some address => if (m.memory.refusal? address).isNone then address + 1 - m.memory.size else 0
  | none => 0

/-- The number of actions in whose time memory grows as the next action needs it. -/
def delay (w : Worker) : Nat :=
  match w.phase with
  | .dispatching =>
    match w.machine.fetch with
    | .ok i => (i.arguments.foldl (fun growth a => max growth (growthFor w.machine a)) 0) / growthPerAction
    | .error _ => 0
  | .storing _ dest _ => growthFor w.machine dest / growthPerAction
  | _ => 0

/-- Lets a worker act until it is done, waits for others, has taken `budget` actions or has written output
    or been served the default input `yields` times. An action that takes longer than the rest of the budget
    is not begun. -/
def slice : Nat → Nat → Worker → Worker
  | 0, _, w => w
  | budget + 1, yields, w =>
    if w.isDone || w.isBlocked || budget < w.delay then w
    else if w.isYielding then
      match yields with
      | 0 => w
      | yields + 1 => slice budget yields (w.step false)
    else slice budget yields (w.step false)

/-- The number of actions a worker manages in some time, between a least and a greatest number. -/
def actionsWithin (time : Duration) : Nat := max 300000 (min (10 * time.microseconds) 20000000)

/-- Lets a worker act until `n` words of output are there, it is done, waits for others or has taken
    `budget` actions. An action that takes longer than the rest of the budget is not begun. -/
def untilOutput (n : Nat) : Nat → Worker → Worker
  | 0, w => w
  | budget + 1, w =>
    if w.isDone || w.isBlocked || n ≤ w.channel.output.size || budget < w.delay then w
    else untilOutput n budget (w.step false)

/-- Lets a worker act to its end and takes the machine back. A worker that waits for input is not
    done until another party acts. -/
def join : Nat → Worker → Option (Except Failure Machine × Array Event)
  | 0, _ => none
  | budget + 1, w =>
    match w.phase with
    | .finished => some (.ok w.machine, w.events)
    | .failed failure => some (.error failure, w.events)
    | .collapsed => some (.error (.workerPanicked w.machine.name), w.events)
    | _ => if w.isBlocked then none else join budget (w.step false)

/-- Lets a worker act for as long as a wait for `n` words of output goes on. -/
def awaited (n : Nat) (w : Worker) : Worker := w.untilOutput n (actionsWithin w.channel.ioTimeout)

def consume (w : Worker) : Except Failure Word × Worker :=
  let w := w.awaited 1
  let (result, channel) := w.channel.consume
  (result, w.withChannel channel)

def awaitOutput (n : Nat) (w : Worker) : Except Failure (List Word) × Worker :=
  let w := w.awaited n
  let (result, channel) := w.channel.awaitOutput n
  (result, w.withChannel channel)

end Worker

end IntegerMachine
