import IntegerMachine.Machine.Cycle

/-!
# Driving a machine

The calls that start, resume, step, halt, patch and read out a machine, each legal in certain run states
only. A call that drives a program takes a bound on the number of cycles, and answers nothing if the
program is not done by then; a greater bound never changes an answer.
-/
namespace IntegerMachine.Machine

def start (m : Machine) : Outcome Unit :=
  match m.channel.transition? .initialising .running with
  | some channel =>
    ⟨.ok (), { m with ip := 0, relativeBase := 0, channel }, #[.started m.name m.memory.size]⟩
  | none => m.answer (.error (m.invalidState .run))

/-- Carries out instructions while the machine runs, and answers the state it comes to. The events of
    the run are appended to `log`. -/
def execute : Nat → Machine → Array Event → Option (Outcome RunState)
  | 0, _, _ => none
  | fuel + 1, m, log =>
    if m.state = .running then
      match m.cycle with
      | ⟨.ok _, m, events⟩ => execute fuel m (log ++ events)
      | ⟨.error failure, m, events⟩ => some ⟨.error failure, m, log ++ events⟩
    else some ⟨.ok m.state, m, log.push (.returning m.name m.ip m.steps m.state)⟩

def run (fuel : Nat) (m : Machine) : Option (Outcome RunState) :=
  match m.start with
  | ⟨.ok (), m, events⟩ => execute fuel m events
  | ⟨.error failure, m, events⟩ => some ⟨.error failure, m, events⟩

/-- Lets a machine run on. A new machine is run; one that awaits input fetches its input instruction
    again; one at rest cannot be resumed. -/
def resume (fuel : Nat) (m : Machine) : Option (Outcome RunState) :=
  match m.state with
  | .initialising => m.run fuel
  | .running => execute fuel m #[]
  | .awaitingInput =>
    match m.channel.transition? .awaitingInput .running with
    | some channel => execute fuel { m with channel } #[.resumed m.name m.ip]
    | none => some (m.answer (.error (m.invalidState .resume)))
  | .ended | .halted => some (m.answer (.error (m.invalidState .resume)))

/-- Carries out exactly one instruction, starting or resuming the machine first. -/
def step (m : Machine) : Outcome Step :=
  match m.state with
  | .initialising =>
    match m.start with
    | ⟨.ok (), m, events⟩ =>
      let o := m.cycle
      { o with events := events ++ o.events }
    | ⟨.error failure, m, events⟩ => ⟨.error failure, m, events⟩
  | .awaitingInput =>
    match m.channel.transition? .awaitingInput .running with
    | some channel => cycle { m with channel }
    | none => m.answer (.error (m.invalidState .step))
  | .running => m.cycle
  | .ended | .halted => m.answer (.error (m.invalidState .step))

/-- Feeds words, resumes, and takes all output. -/
def runWith (fuel : Nat) (m : Machine) (words : List Word) : Option (Outcome (List Word)) :=
  match m.channel.feedAll words with
  | .error failure => some (m.answer (.error failure))
  | .ok channel =>
    match resume fuel { m with channel } with
    | none => none
    | some ⟨.error failure, m, events⟩ => some ⟨.error failure, m, events⟩
    | some ⟨.ok _, m, events⟩ =>
      let (words, channel) := m.channel.drain
      some ⟨.ok words, { m with channel }, events⟩

def halt (m : Machine) (silent : Bool) : Outcome Bool :=
  match m.channel.halt with
  | (false, channel) => ⟨.ok false, { m with channel }, #[]⟩
  | (true, channel) =>
    let event : Event := if silent then .haltedSilently m.name m.ip else .halted m.name m.ip m.steps
    ⟨.ok true, { m with channel }, #[event]⟩

/-- Overwrites a cell of a program that has not started, and answers its previous contents. -/
def poke (m : Machine) (address : Nat) (word : Word) : Outcome Word :=
  if m.state = .initialising then
    match Memory.poke address word m.memory with
    | .ok previous memory => ⟨.ok previous, { m with memory }, #[]⟩
    | .error fault memory =>
      let patch := "poke M[" ++ address.repr ++ "] = " ++ word.text
      ⟨.error (.faulted m.name m.ip patch fault), { m with memory }, #[]⟩
  else m.answer (.error (m.invalidState .poke))

def readOutput (m : Machine) : Outcome (List Word) :=
  if m.state = .ended then
    let (words, channel) := m.channel.drain
    ⟨.ok words, { m with channel }, #[]⟩
  else m.answer (.error (m.invalidState .readOutput))

end IntegerMachine.Machine
