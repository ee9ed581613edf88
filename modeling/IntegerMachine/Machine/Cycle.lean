import IntegerMachine.Effect
import IntegerMachine.Encoding
import IntegerMachine.Machine

/-!
# The instruction cycle

One cycle fetches the instruction at the instruction pointer, moves the pointer behind it, evaluates it
against memory and settles its effect. A fault halts the machine. An input instruction that finds
nothing to read puts the pointer back, so that it is fetched again later; such a cycle is not counted.
-/
namespace IntegerMachine

inductive Step where
  | advanced
  | suspended
  | ended
  /-- The machine had been halted in the meantime. -/
  | stopped
  deriving DecidableEq

/-- An instruction fetched at `start` and evaluated, with the effect that is still to be settled. -/
structure Pending where
  start : Nat
  instruction : Instruction
  effect : Effect
  deriving DecidableEq

namespace Machine

def fetch (m : Machine) : Except Fault Instruction :=
  if m.ip < m.memory.size then Instruction.decode m.memory m.ip else .error .ranOffEnd

def traceEvents (m : Machine) (i : Instruction) : Array Event :=
  if m.config.trace then #[.executing m.name m.ip m.relativeBase i] else #[]

/-- Fetches and evaluates the next instruction. A fault is answered with its context, but the machine
    is not halted yet. -/
def dispatch (m : Machine) : Outcome Pending :=
  match m.fetch with
  | .error fault =>
    m.answer (.error (.faulted m.name m.ip ("word " ++ (m.memory.peek m.ip).text) fault))
  | .ok i =>
    let events := m.traceEvents i
    match m with
    | { config, memory, ip, relativeBase, channel, steps, outputCount, lastOutput } =>
      match i.evaluate relativeBase memory with
      | .ok effect memory =>
        ⟨.ok ⟨ip, i, effect⟩,
          { config, memory, ip := ip + i.size, relativeBase, channel, steps, outputCount, lastOutput },
          events⟩
      | .error fault memory =>
        ⟨.error (.faulted config.name ip i.text fault),
          { config, memory, ip := ip + i.size, relativeBase, channel, steps, outputCount, lastOutput },
          events⟩

def counted (m : Machine) : Machine := { m with steps := m.steps + 1 }

def emit (m : Machine) (word : Word) : Machine :=
  { m with
    channel := m.channel.emit word
    outputCount := m.outputCount + 1
    lastOutput := some word }

/-- The machine halted, unless it is at rest already. -/
def halted (m : Machine) : Machine := m.mapChannel fun c => c.halt.2

/-- Stores the word that the input instruction at `start` received, and counts the instruction. -/
def receive (m : Machine) (start : Nat) (i : Instruction) (dest : Argument) (word : Word) :
    Except Failure Unit × Machine :=
  match m with
  | { config, memory, ip, relativeBase, channel, steps, outputCount, lastOutput } =>
    match Memory.store dest relativeBase word memory with
    | .ok _ memory =>
      (.ok (),
        { config, memory, ip, relativeBase, channel, steps := steps + 1, outputCount, lastOutput })
    | .error fault memory =>
      (.error (.faulted config.name start i.text fault),
        { config, memory, ip, relativeBase, channel, steps, outputCount, lastOutput })

/-- Takes the next input: a queued word, else the default. Without either a cooperative machine has
    none, and a worker waits; a wait that finds the machine at rest brings none. -/
def readInput (m : Machine) : Except Failure (Option Word) × Machine :=
  match m.channel.pop? .input with
  | some (word, channel) => (.ok (some word), { m with channel })
  | none =>
    match m.config.defaultInput with
    | some word => (.ok (some word), m)
    | none =>
      match m.config.mode with
      | .cooperative => (.ok none, m)
      | .worker =>
        match m.channel.wait .input with
        | (.ok word, channel) => (.ok (some word), { m with channel })
        | (.error (.closed ..), channel) => (.ok none, { m with channel })
        | (.error failure, channel) => (.error failure, { m with channel })

/-- Puts the pointer back to an input instruction that found nothing to read, and awaits input. -/
def suspend (m : Machine) (start : Nat) (events : Array Event) : Outcome Step :=
  match m.channel.transition? .running .awaitingInput with
  | some channel =>
    ⟨.ok .suspended, { m with ip := start, channel }, events.push (.suspended m.name start)⟩
  | none => ⟨.ok .stopped, { m with ip := start }, events⟩

def finish (m : Machine) (start : Nat) (events : Array Event) : Outcome Step :=
  match m.channel.transition? .running .ended with
  | some channel =>
    ⟨.ok .ended, { m with channel, steps := m.steps + 1 },
      events.push (.ended m.name start (m.steps + 1))⟩
  | none => ⟨.ok .stopped, m.counted, events⟩

def settle (m : Machine) (p : Pending) (events : Array Event) : Outcome Step :=
  match p.effect with
  | .advance => ⟨.ok .advanced, m.counted, events⟩
  | .jump target => ⟨.ok .advanced, { m with ip := target, steps := m.steps + 1 }, events⟩
  | .rebase relativeBase => ⟨.ok .advanced, { m with relativeBase, steps := m.steps + 1 }, events⟩
  | .output word => ⟨.ok .advanced, (m.emit word).counted, events⟩
  | .halt => m.finish p.start events
  | .input dest =>
    match m.readInput with
    | (.ok none, m) => m.suspend p.start events
    | (.error failure, m) => ⟨.error failure, { m with ip := p.start }, events⟩
    | (.ok (some word), m) =>
      match m.receive p.start p.instruction dest word with
      | (.ok (), m) => ⟨.ok .advanced, m, events⟩
      | (.error failure, m) => ⟨.error failure, m.halted, events⟩

def cycle (m : Machine) : Outcome Step :=
  match m.dispatch with
  | ⟨.ok p, m, events⟩ => m.settle p events
  | ⟨.error failure, m, events⟩ => ⟨.error failure, m.halted, events⟩

end Machine

end IntegerMachine
