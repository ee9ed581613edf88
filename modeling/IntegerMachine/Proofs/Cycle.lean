import IntegerMachine.Machine.Lifecycle

/-!
# What a cycle does

The rules of one instruction cycle, so that nothing later opens its definition. Evaluation asks for input
only where an input instruction stands (`evaluate_input`). A cycle of a running cooperative machine carries
its instruction out, suspends, ends or faults (`cycle_cooperative`); whatever it does, the settings stay and
output is only added (`cycle_follows`).
-/
namespace IntegerMachine

/-! ## Evaluation -/

section
variable {ε σ α β : Type}

private theorem bind_ok {x : EStateM ε σ α} {f : α → EStateM ε σ β} {s s' : σ} {b : β}
    (done : (x >>= f) s = .ok b s') : ∃ a between, x s = .ok a between ∧ f a between = .ok b s' := by
  change EStateM.bind x f s = .ok b s' at done
  unfold EStateM.bind at done
  cases first : x s with
  | ok a between => exact ⟨a, between, rfl, by simpa only [first] using done⟩
  | error e between =>
    simp only [first] at done
    cases done

private theorem pure_ok {a b : α} {s s' : σ} (done : (pure a : EStateM ε σ α) s = .ok b s') : b = a ∧ s' = s := by
  cases done
  exact ⟨rfl, rfl⟩

end

namespace Effect
variable {relativeBase : Word} {mem mem' : Memory} {effect : Effect}

theorem combine_ok {f : Word → Word → Word} {lhs rhs dest : Argument}
    (evaluated : combine f lhs rhs dest relativeBase mem = .ok effect mem') : effect = .advance := by
  obtain ⟨x, _, -, evaluated⟩ := bind_ok evaluated
  obtain ⟨y, _, -, evaluated⟩ := bind_ok evaluated
  obtain ⟨_, _, -, evaluated⟩ := bind_ok evaluated
  exact (pure_ok evaluated).1

theorem jumpTo_ok {target : Argument} (evaluated : jumpTo target relativeBase mem = .ok effect mem') :
    ∃ address, effect = .jump address ∧ address < mem'.size := by
  obtain ⟨word, loaded, -, evaluated⟩ := bind_ok evaluated
  obtain ⟨_, _, got, evaluated⟩ := bind_ok evaluated
  cases got
  cases sized : word.toSize? with
  | none =>
    rw [sized] at evaluated
    cases evaluated
  | some address =>
    rw [sized] at evaluated
    by_cases inside : address < loaded.size
    · simp only [if_pos inside] at evaluated
      obtain ⟨rfl, rfl⟩ := pure_ok evaluated
      exact ⟨address, rfl, inside⟩
    · simp only [if_neg inside] at evaluated
      cases evaluated

theorem jumpWhen_ok {test : Word → Bool} {condition target : Argument}
    (evaluated : jumpWhen test condition target relativeBase mem = .ok effect mem') :
    effect = .advance ∨ ∃ address, effect = .jump address ∧ address < mem'.size := by
  obtain ⟨x, loaded, -, evaluated⟩ := bind_ok evaluated
  split at evaluated
  · exact .inr (jumpTo_ok evaluated)
  · exact .inl (pure_ok evaluated).1

end Effect

/-- What an effect tells about the instruction that asks for it and about memory: a jump leads to a cell, and only
    the instructions for input and for the end ask for those, and have not touched memory by then. -/
def Instruction.Asks (i : Instruction) (mem mem' : Memory) : Effect → Prop
  | .jump target => target < mem'.size
  | .input dest => i = .input dest ∧ mem' = mem
  | .halt => i = .halt ∧ mem' = mem
  | .advance | .rebase _ | .output _ => True

theorem Instruction.asks_of_evaluate {i : Instruction} {relativeBase : Word} {mem mem' : Memory} {effect : Effect}
    (evaluated : i.evaluate relativeBase mem = .ok effect mem') : i.Asks mem mem' effect := by
  cases i with
  | add | multiply | lessThan | equals =>
    obtain rfl := Effect.combine_ok evaluated
    trivial
  | jumpIfTrue | jumpIfFalse =>
    rcases Effect.jumpWhen_ok evaluated with rfl | ⟨address, rfl, inside⟩
    · trivial
    · exact inside
  | input dest =>
    cases evaluated
    exact ⟨rfl, rfl⟩
  | output source =>
    obtain ⟨word, _, -, evaluated⟩ := bind_ok evaluated
    obtain ⟨rfl, -⟩ := pure_ok evaluated
    trivial
  | adjustRelativeBase offset =>
    obtain ⟨word, _, -, evaluated⟩ := bind_ok evaluated
    obtain ⟨rfl, -⟩ := pure_ok evaluated
    trivial
  | halt =>
    cases evaluated
    exact ⟨rfl, rfl⟩

/-- Only an input instruction asks for input, and it has not touched memory by then. -/
theorem Instruction.evaluate_input {i : Instruction} {relativeBase : Word} {mem mem' : Memory} {dest : Argument}
    (evaluated : i.evaluate relativeBase mem = .ok (.input dest) mem') : i = .input dest ∧ mem' = mem :=
  asks_of_evaluate evaluated

/-! ## The channel -/

theorem RunState.stopped_of_terminal {state : RunState} (atRest : state.isTerminal) : state ≠ .running := by
  rintro rfl
  cases atRest

theorem RunState.started_of_terminal {state : RunState} (atRest : state.isTerminal) : state ≠ .initialising := by
  rintro rfl
  cases atRest

/-- A deadline so far ahead can be set, wherever in the first half of its range the clock stands. -/
def Duration.Near (d : Duration) : Prop := 2 * d.nanoseconds ≤ clockRange

theorem Duration.Near.isTimable {d : Duration} (near : d.Near) : d.isTimable := by
  have positive : 0 < clockRange := by decide
  unfold Near at near
  unfold Duration.isTimable
  rw [decide_eq_true_eq]
  omega

namespace Channel

theorem pop?_input_eq_some {c c' : Channel} {word : Word} (popped : c.pop? .input = some (word, c')) :
    c.input = word :: c'.input ∧ c' = { c with input := c'.input } := by
  unfold pop? queued at popped
  cases queued : c.input with
  | nil =>
    simp only [queued] at popped
    cases popped
  | cons first rest =>
    simp only [queued] at popped
    cases popped
    exact ⟨rfl, rfl⟩

theorem pop?_input_eq_none {c : Channel} : c.pop? .input = none ↔ c.input = [] := by
  unfold pop? queued
  cases queued : c.input <;> simp

/-- What a wait on an empty queue fails with. -/
def denial (c : Channel) (queue : Queue) : Failure :=
  if c.ioTimeout.isTimable then c.starved queue else .beyondCapacity c.program

theorem wait_of_none {c : Channel} {queue : Queue} (missing : c.pop? queue = none) :
    c.wait queue = (.error (c.denial queue), c) := by
  unfold wait denial
  rw [missing]
  split <;> rfl

theorem wait_of_some {c c' : Channel} {queue : Queue} {word : Word} (timed : c.ioTimeout.isTimable)
    (popped : c.pop? queue = some (word, c')) : c.wait queue = (.ok word, c') := by
  unfold wait
  rw [if_pos timed, popped]

/-- A wait without a deadline breaks down, whatever is queued. -/
theorem wait_of_untimed {c : Channel} (untimed : ¬ c.ioTimeout.isTimable) (queue : Queue) :
    c.wait queue = (.error (.beyondCapacity c.program), c) := if_neg untimed

/-- A wait takes the word in front, or fails and takes none. -/
theorem wait_cases (c : Channel) (queue : Queue) :
    (∃ word c', c.pop? queue = some (word, c') ∧ c.wait queue = (.ok word, c')) ∨
    ∃ failure, c.wait queue = (.error failure, c) := by
  by_cases timed : c.ioTimeout.isTimable
  · cases popped : c.pop? queue with
    | some front => exact .inl ⟨front.1, front.2, rfl, wait_of_some timed popped⟩
    | none => exact .inr ⟨_, wait_of_none popped⟩
  · exact .inr ⟨_, wait_of_untimed timed queue⟩

theorem denial_of_timed {c : Channel} (timed : c.ioTimeout.isTimable) (queue : Queue) :
    c.denial queue = c.starved queue := if_pos timed

theorem halt_of_terminal {c : Channel} (atRest : c.state.isTerminal) : c.halt = (false, c) := if_pos atRest

theorem halt_of_live {c : Channel} (live : c.state.isTerminal = false) :
    c.halt = (true, { c with state := .halted }) := by
  unfold halt
  rw [live]
  rfl

end Channel

namespace Machine

/-- The machine in another run state. -/
def withState (m : Machine) (state : RunState) : Machine := m.mapChannel fun c => { c with state }

theorem withState_state (m : Machine) : m.withState m.state = m := rfl

theorem halted_of_terminal {m : Machine} (atRest : m.state.isTerminal) : m.halted = m := by
  simp only [halted, mapChannel, Channel.halt_of_terminal (c := m.channel) atRest]

theorem halted_of_live {m : Machine} (live : m.state.isTerminal = false) : m.halted = m.withState .halted := by
  simp only [halted, mapChannel, Channel.halt_of_live (c := m.channel) live]
  rfl

/-! ## Fetching and evaluating -/

theorem dispatch_of_unfetched {m : Machine} {fault : Fault} (fetched : m.fetch = .error fault) :
    m.dispatch =
      m.answer (.error (.faulted m.name m.ip ("word " ++ (m.memory.peek m.ip).text) fault)) := by
  unfold dispatch
  rw [fetched]

theorem dispatch_of_evaluated {m : Machine} {i : Instruction} {effect : Effect} {memory : Memory}
    (fetched : m.fetch = .ok i) (evaluated : i.evaluate m.relativeBase m.memory = .ok effect memory) :
    m.dispatch = ⟨.ok ⟨m.ip, i, effect⟩, { m with memory, ip := m.ip + i.size }, m.traceEvents i⟩ := by
  unfold dispatch
  rw [fetched]
  cases m
  simp only [evaluated]

theorem dispatch_of_faulted {m : Machine} {i : Instruction} {fault : Fault} {memory : Memory}
    (fetched : m.fetch = .ok i) (evaluated : i.evaluate m.relativeBase m.memory = .error fault memory) :
    m.dispatch =
      ⟨.error (.faulted m.name m.ip i.text fault), { m with memory, ip := m.ip + i.size },
        m.traceEvents i⟩ := by
  unfold dispatch
  rw [fetched]
  cases m
  simp only [evaluated]
  rfl

/-- Fetching and evaluating either yields an instruction with its effect, or the context of a fault. Nothing but
    memory and the instruction pointer changes. -/
theorem dispatch_cases (m : Machine) :
    (∃ i effect memory events, m.fetch = .ok i ∧ i.evaluate m.relativeBase m.memory = .ok effect memory ∧
      m.dispatch = ⟨.ok ⟨m.ip, i, effect⟩, { m with memory, ip := m.ip + i.size }, events⟩) ∨
    ∃ text fault memory ip events,
      m.dispatch = ⟨.error (.faulted m.name m.ip text fault), { m with memory, ip }, events⟩ := by
  cases fetched : m.fetch with
  | error fault => exact .inr ⟨_, fault, m.memory, m.ip, _, dispatch_of_unfetched fetched⟩
  | ok i =>
    cases evaluated : i.evaluate m.relativeBase m.memory with
    | ok effect memory =>
      exact .inl ⟨i, effect, memory, _, rfl, evaluated, dispatch_of_evaluated fetched evaluated⟩
    | error fault memory => exact .inr ⟨_, fault, memory, _, _, dispatch_of_faulted fetched evaluated⟩

/-- An input instruction is next. -/
def AtInput (m : Machine) : Prop := ∃ dest, m.fetch = .ok (.input dest)

/-- An input instruction is next, and no word is queued for it. -/
def Starving (m : Machine) : Prop := m.AtInput ∧ m.channel.input = []

/-! ## Settling -/

/-- The machine with other words queued for input. -/
def withInput (m : Machine) (input : List Word) : Machine := m.mapChannel fun c => { c with input }

/-- Reading input changes nothing but the queue. -/
theorem readInput_machine (m : Machine) : ∃ input, m.readInput.2 = m.withInput input := by
  unfold readInput
  cases popped : m.channel.pop? .input with
  | some front =>
    obtain ⟨word, c⟩ := front
    exact ⟨c.input, by rw [withInput, mapChannel, ← (Channel.pop?_input_eq_some popped).2]⟩
  | none =>
    refine ⟨m.channel.input, ?_⟩
    simp only [Channel.wait_of_none popped]
    cases m.config.defaultInput with
    | some word => rfl
    | none =>
      cases m.config.mode with
      | cooperative => rfl
      | worker => cases m.channel.denial .input <;> rfl

theorem readInput_of_queued {m : Machine} {word : Word} {rest : List Word} (front : m.channel.input = word :: rest) :
    m.readInput = (.ok (some word), m.withInput rest) := by
  simp only [readInput, Channel.pop?, Channel.queued, front, Channel.withQueued]
  rfl

/-- A cooperative machine finds a word, or has neither a queued one nor a default. -/
theorem readInput_cooperative {m : Machine} (mode : m.config.mode = .cooperative) :
    (∃ word, m.readInput.1 = .ok (some word)) ∨
      m.readInput = (.ok none, m) ∧ m.channel.input = [] ∧ m.config.defaultInput = none := by
  unfold readInput
  cases popped : m.channel.pop? .input with
  | some front => exact .inl ⟨front.1, rfl⟩
  | none =>
    simp only
    cases served : m.config.defaultInput with
    | some word => exact .inl ⟨word, rfl⟩
    | none => exact .inr ⟨by simp only [mode], Channel.pop?_input_eq_none.mp popped, rfl⟩

/-- A word that is received is stored and counted, or strikes a fault. -/
theorem receive_cases (m : Machine) (start : Nat) (i : Instruction) (dest : Argument) (word : Word) :
    (∃ memory, m.receive start i dest word = (.ok (), { m with memory, steps := m.steps + 1 })) ∨
    ∃ memory fault, m.receive start i dest word = (.error (.faulted m.name start i.text fault), { m with memory }) := by
  cases m with | mk config memory ip relativeBase channel steps outputCount lastOutput =>
  unfold receive
  simp only
  cases Memory.store dest relativeBase word memory with
  | ok previous memory => exact .inl ⟨memory, rfl⟩
  | error fault memory => exact .inr ⟨memory, fault, rfl⟩

/-- A machine that runs is suspended; one that has been halted meanwhile is not. -/
theorem suspend_cases (m : Machine) (start : Nat) (events : Array Event) :
    (m.state = .running ∧ ∃ more, m.suspend start events =
      ⟨.ok .suspended, { m.withState .awaitingInput with ip := start }, more⟩) ∨
    m.state ≠ .running ∧ m.suspend start events = ⟨.ok .stopped, { m with ip := start }, events⟩ := by
  unfold suspend Channel.transition?
  by_cases running : m.channel.state = .running
  · rw [if_pos running]
    exact .inl ⟨running, _, rfl⟩
  · rw [if_neg running]
    exact .inr ⟨running, rfl⟩

/-- A machine that runs is ended; one that has been halted meanwhile is not. -/
theorem finish_cases (m : Machine) (start : Nat) (events : Array Event) :
    (m.state = .running ∧ ∃ more, m.finish start events =
      ⟨.ok .ended, { m.withState .ended with steps := m.steps + 1 }, more⟩) ∨
    m.state ≠ .running ∧ m.finish start events = ⟨.ok .stopped, m.counted, events⟩ := by
  unfold finish Channel.transition?
  by_cases running : m.channel.state = .running
  · rw [if_pos running]
    exact .inl ⟨running, _, rfl⟩
  · rw [if_neg running]
    exact .inr ⟨running, rfl⟩

theorem finish_of_running {m : Machine} (running : m.state = .running) (start : Nat) (events : Array Event) :
    ∃ more, m.finish start events = ⟨.ok .ended, { m.withState .ended with steps := m.steps + 1 }, more⟩ := by
  rcases m.finish_cases start events with ⟨-, finished⟩ | ⟨stopped, -⟩
  · exact finished
  · exact absurd running stopped

theorem settle_of_halt {m : Machine} {p : Pending} {events : Array Event} (effect : p.effect = .halt) :
    m.settle p events = m.finish p.start events := by
  unfold settle
  rw [effect]

theorem settle_of_missing {m m' : Machine} {p : Pending} {dest : Argument} (effect : p.effect = .input dest)
    (missing : m.readInput = (.ok none, m')) (events : Array Event) :
    m.settle p events = m'.suspend p.start events := by
  unfold settle
  simp only [effect, missing]

theorem settle_of_waited {m m' : Machine} {p : Pending} {dest : Argument} {failure : Failure}
    (effect : p.effect = .input dest) (waited : m.readInput = (.error failure, m')) (events : Array Event) :
    m.settle p events = ⟨.error failure, { m' with ip := p.start }, events⟩ := by
  unfold settle
  simp only [effect, waited]

theorem settle_of_refused {m m' m'' : Machine} {p : Pending} {dest : Argument} {word : Word} {failure : Failure}
    (effect : p.effect = .input dest) (read : m.readInput = (.ok (some word), m'))
    (refused : m'.receive p.start p.instruction dest word = (.error failure, m'')) (events : Array Event) :
    m.settle p events = ⟨.error failure, m''.halted, events⟩ := by
  unfold settle
  simp only [effect, read, refused]

theorem settle_of_received {m m' m'' : Machine} {p : Pending} {dest : Argument} {word : Word}
    (effect : p.effect = .input dest) (read : m.readInput = (.ok (some word), m'))
    (received : m'.receive p.start p.instruction dest word = (.ok (), m'')) (events : Array Event) :
    m.settle p events = ⟨.ok .advanced, m'', events⟩ := by
  unfold settle
  simp only [effect, read, received]

/-- An input instruction finds nothing and suspends, has waited in vain, or finds a word that is stored or
    strikes a fault. -/
theorem settle_input_cases {p : Pending} {dest : Argument} (effect : p.effect = .input dest) (m : Machine)
    (events : Array Event) : ∃ input,
    (m.readInput.1 = .ok none ∧ m.settle p events = (m.withInput input).suspend p.start events) ∨
    (∃ failure, m.readInput.1 = .error failure ∧
      m.settle p events = ⟨.error failure, { m.withInput input with ip := p.start }, events⟩) ∨
    (∃ memory, m.settle p events =
      ⟨.ok .advanced, { m.withInput input with memory, steps := m.steps + 1 }, events⟩) ∨
    ∃ memory fault, m.settle p events = ⟨.error (.faulted m.name p.start p.instruction.text fault),
      Machine.halted { m.withInput input with memory }, events⟩ := by
  obtain ⟨input, left⟩ := m.readInput_machine
  rcases read : m.readInput with ⟨failure | _ | word, m'⟩
  · rw [read] at left
    refine ⟨input, .inr (.inl ⟨failure, rfl, ?_⟩)⟩
    unfold settle
    simp only [effect, read]
    rw [show m' = m.withInput input from left]
  · rw [read] at left
    rw [settle_of_missing effect read, show m' = m.withInput input from left]
    exact ⟨input, .inl ⟨rfl, rfl⟩⟩
  · rw [read] at left
    obtain rfl : m' = m.withInput input := left
    rcases receive_cases (m.withInput input) p.start p.instruction dest word with
      ⟨memory, received⟩ | ⟨memory, fault, refused⟩
    · exact ⟨input, .inr (.inr (.inl ⟨memory, settle_of_received effect read received events⟩))⟩
    · exact ⟨input, .inr (.inr (.inr ⟨memory, fault, settle_of_refused effect read refused events⟩))⟩

/-! ## What a cycle comes to -/

/-- What holds between a machine and what it becomes: its settings stay, and the words written meanwhile
    stand behind those written before and are counted. -/
structure Follows (m m' : Machine) : Prop where
  config : m'.config = m.config
  timeout : m'.channel.ioTimeout = m.channel.ioTimeout
  written : ∃ words : List Word, m'.channel.output = m.channel.output ++ words.toArray ∧
    m'.outputCount = m.outputCount + words.length

theorem Follows.silent {m m' : Machine} (config : m'.config = m.config)
    (timeout : m'.channel.ioTimeout = m.channel.ioTimeout) (output : m'.channel.output = m.channel.output)
    (count : m'.outputCount = m.outputCount) : Follows m m' :=
  ⟨config, timeout, [], by simp [output], by simp [count]⟩

theorem Follows.trans {m m' m'' : Machine} (first : Follows m m') (second : Follows m' m'') :
    Follows m m'' := by
  obtain ⟨words, output, count⟩ := first.written
  obtain ⟨more, output', count'⟩ := second.written
  refine ⟨second.config.trans first.config, second.timeout.trans first.timeout, words ++ more, ?_, ?_⟩
  · simp only [output', output, Array.append_assoc, List.append_toArray]
  · rw [count', count, List.length_append, Nat.add_assoc]

theorem halted_follows (m : Machine) : Follows m m.halted := by
  cases rest : m.state.isTerminal with
  | true =>
    rw [halted_of_terminal rest]
    exact .silent rfl rfl rfl rfl
  | false =>
    rw [halted_of_live rest]
    exact .silent rfl rfl rfl rfl

theorem settle_follows (m : Machine) (p : Pending) (events : Array Event) :
    Follows m (m.settle p events).machine := by
  cases effect : p.effect with
  | advance | jump | rebase =>
    unfold settle
    rw [effect]
    exact .silent rfl rfl rfl rfl
  | output word =>
    unfold settle
    rw [effect]
    exact ⟨rfl, rfl, [word], by simp [counted, emit, Channel.emit], rfl⟩
  | halt =>
    rw [settle_of_halt effect]
    rcases m.finish_cases p.start events with ⟨-, more, finished⟩ | ⟨-, finished⟩
    · rw [finished]
      exact .silent rfl rfl rfl rfl
    · rw [finished]
      exact .silent rfl rfl rfl rfl
  | input dest =>
    obtain ⟨input, ⟨-, settled⟩ | ⟨_, -, settled⟩ | ⟨memory, settled⟩ | ⟨memory, fault, settled⟩⟩ :=
      settle_input_cases effect m events
    · rw [settled]
      rcases (m.withInput input).suspend_cases p.start events with ⟨-, more, suspended⟩ | ⟨-, suspended⟩
      · rw [suspended]
        exact .silent rfl rfl rfl rfl
      · rw [suspended]
        exact .silent rfl rfl rfl rfl
    · rw [settled]
      exact .silent rfl rfl rfl rfl
    · rw [settled]
      exact .silent rfl rfl rfl rfl
    · have read : Follows m { m.withInput input with memory } := .silent rfl rfl rfl rfl
      rw [settled]
      exact read.trans (halted_follows _)

theorem cycle_of_dispatched {m m' : Machine} {p : Pending} {events : Array Event}
    (dispatched : m.dispatch = ⟨.ok p, m', events⟩) : m.cycle = m'.settle p events := by
  unfold cycle
  rw [dispatched]

theorem dispatch_kept {m d : Machine} {result : Except Failure Pending} {events : Array Event}
    (dispatched : m.dispatch = ⟨result, d, events⟩) :
    d.channel = m.channel ∧ d.steps = m.steps ∧ d.config = m.config := by
  rcases m.dispatch_cases with ⟨i, effect, memory, more, -, -, found⟩ | ⟨text, fault, memory, ip, more, found⟩
  · cases dispatched.symm.trans found
    exact ⟨rfl, rfl, rfl⟩
  · cases dispatched.symm.trans found
    exact ⟨rfl, rfl, rfl⟩

theorem cycle_of_struck {m m' : Machine} {failure : Failure} {events : Array Event}
    (struck : m.dispatch = ⟨.error failure, m', events⟩) : m.cycle = ⟨.error failure, m'.halted, events⟩ := by
  unfold cycle
  rw [struck]

theorem cycle_follows (m : Machine) : Follows m m.cycle.machine := by
  rcases m.dispatch_cases with ⟨i, effect, memory, events, -, -, dispatched⟩ | ⟨text, fault, memory, ip, events, struck⟩
  · have evaluated : Follows m { m with memory, ip := m.ip + i.size } := .silent rfl rfl rfl rfl
    rw [cycle_of_dispatched dispatched]
    exact evaluated.trans (settle_follows _ _ events)
  · have evaluated : Follows m { m with memory, ip } := .silent rfl rfl rfl rfl
    rw [cycle_of_struck struck]
    exact evaluated.trans (halted_follows _)

/-- A machine that suspends when its program needs a word and none is queued. -/
structure Suspends (m : Machine) : Prop where
  mode : m.config.mode = .cooperative
  unserved : m.config.defaultInput = none

theorem Suspends.of_config {m m' : Machine} (suspends : m.Suspends) (config : m'.config = m.config) :
    m'.Suspends :=
  ⟨config ▸ suspends.mode, config ▸ suspends.unserved⟩

/-- A machine that starves awaits input and is otherwise as it was: the pointer is back at the input
    instruction, nothing is counted, nothing is taken and memory has not grown. -/
theorem cycle_of_starving {m : Machine} (suspends : m.Suspends) (running : m.state = .running)
    (starving : m.Starving) :
    ∃ events, m.cycle = ⟨.ok .suspended, m.withState .awaitingInput, events⟩ := by
  obtain ⟨⟨dest, fetched⟩, empty⟩ := starving
  have evaluated : (Instruction.input dest).evaluate m.relativeBase m.memory = .ok (.input dest) m.memory := rfl
  have dispatched := dispatch_of_evaluated fetched evaluated
  let behind : Machine := { m with ip := m.ip + (Instruction.input dest).size }
  have missing : behind.readInput = (.ok none, behind) := by
    simp only [behind, readInput, Channel.pop?_input_eq_none.mpr empty, suspends.unserved, suspends.mode]
  rw [cycle_of_dispatched dispatched, settle_of_missing rfl missing]
  rcases behind.suspend_cases m.ip (m.traceEvents (.input dest)) with ⟨-, more, suspended⟩ | ⟨stopped, -⟩
  · exact ⟨more, suspended⟩
  · exact absurd running stopped

/-- The four ends of settling an effect in a running cooperative machine. -/
theorem settle_cooperative {m : Machine} (mode : m.config.mode = .cooperative) (running : m.state = .running)
    (p : Pending) (events : Array Event) :
    ((m.settle p events).result = .ok .advanced ∧ (m.settle p events).machine.state = .running) ∨
    ((m.settle p events).result = .ok .suspended ∧ (m.settle p events).machine.state = .awaitingInput ∧
      (∃ dest, p.effect = .input dest) ∧ m.channel.input = [] ∧ m.config.defaultInput = none) ∨
    ((m.settle p events).result = .ok .ended ∧ (m.settle p events).machine.state = .ended) ∨
    ((∃ text fault, (m.settle p events).result = .error (.faulted m.name p.start text fault)) ∧
      (m.settle p events).machine.state = .halted) := by
  cases effect : p.effect with
  | advance | jump | rebase | output =>
    unfold settle
    rw [effect]
    exact .inl ⟨rfl, running⟩
  | halt =>
    obtain ⟨more, finished⟩ := finish_of_running running p.start events
    rw [settle_of_halt effect, finished]
    exact .inr (.inr (.inl ⟨rfl, rfl⟩))
  | input dest =>
    rcases readInput_cooperative mode with ⟨word, found⟩ | ⟨missing, empty, unserved⟩
    · obtain ⟨input, ⟨none, -⟩ | ⟨_, failed, -⟩ | ⟨memory, settled⟩ | ⟨memory, fault, settled⟩⟩ :=
        settle_input_cases effect m events
      · cases found.symm.trans none
      · cases found.symm.trans failed
      · rw [settled]
        exact .inl ⟨rfl, running⟩
      · have live : ({ m.withInput input with memory } : Machine).state.isTerminal = false := by
          change m.state.isTerminal = false
          rw [running]
          rfl
        rw [settled, halted_of_live live]
        exact .inr (.inr (.inr ⟨⟨_, _, rfl⟩, rfl⟩))
    · rw [settle_of_missing effect missing]
      rcases m.suspend_cases p.start events with ⟨-, more, suspended⟩ | ⟨stopped, -⟩
      · rw [suspended]
        exact .inr (.inl ⟨rfl, rfl, ⟨dest, rfl⟩, empty, unserved⟩)
      · exact absurd running stopped

/-- The four ends of a cycle of a running cooperative machine. -/
theorem cycle_cooperative {m : Machine} (mode : m.config.mode = .cooperative) (running : m.state = .running) :
    (m.cycle.result = .ok .advanced ∧ m.cycle.machine.state = .running) ∨
    (m.cycle.result = .ok .suspended ∧ m.cycle.machine.state = .awaitingInput ∧
      m.Starving ∧ m.config.defaultInput = none) ∨
    (m.cycle.result = .ok .ended ∧ m.cycle.machine.state = .ended) ∨
    ((∃ text fault, m.cycle.result = .error (.faulted m.name m.ip text fault)) ∧
      m.cycle.machine.state = .halted) := by
  rcases m.dispatch_cases with
    ⟨i, effect, memory, events, fetched, evaluated, dispatched⟩ | ⟨text, fault, memory, ip, events, struck⟩
  · rw [cycle_of_dispatched dispatched]
    rcases settle_cooperative (m := { m with memory, ip := m.ip + i.size }) mode running ⟨m.ip, i, effect⟩ events with
      advanced | ⟨result, state, ⟨dest, rfl⟩, empty, unserved⟩ | ended | faulted
    · exact .inl advanced
    · obtain ⟨rfl, -⟩ := Instruction.evaluate_input evaluated
      exact .inr (.inl ⟨result, state, ⟨⟨dest, fetched⟩, empty⟩, unserved⟩)
    · exact .inr (.inr (.inl ended))
    · exact .inr (.inr (.inr faulted))
  · have live : m.state.isTerminal = false := by rw [running]; rfl
    rw [cycle_of_struck struck, halted_of_live (m := { m with memory, ip }) live]
    exact .inr (.inr (.inr ⟨⟨_, _, rfl⟩, rfl⟩))

theorem cycle_failed {m : Machine} {failure : Failure} (mode : m.config.mode = .cooperative)
    (running : m.state = .running) (failed : m.cycle.result = .error failure) :
    (∃ text fault, failure = .faulted m.name m.ip text fault) ∧ m.cycle.machine.state = .halted := by
  rcases cycle_cooperative mode running with ⟨done, -⟩ | ⟨done, -⟩ | ⟨done, -⟩ | ⟨⟨text, fault, struck⟩, state⟩
  · cases failed.symm.trans done
  · cases failed.symm.trans done
  · cases failed.symm.trans done
  · cases failed.symm.trans struck
    exact ⟨⟨text, fault, rfl⟩, state⟩

theorem served_of_result {m : Machine} (suspends : m.Suspends) (running : m.state = .running)
    (result : m.cycle.result ≠ .ok .suspended) : ¬ m.Starving := by
  intro starving
  obtain ⟨events, starved⟩ := cycle_of_starving suspends running starving
  exact result (by rw [starved])

/-! ## What a cycle counts and takes -/

theorem settle_counted {m : Machine} {p : Pending} {events : Array Event}
    (counted : (m.settle p events).result = .ok .advanced ∨ (m.settle p events).result = .ok .ended) :
    (m.settle p events).machine.steps = m.steps + 1 := by
  cases effect : p.effect with
  | advance | output =>
    unfold settle
    rw [effect]
    rfl
  | jump | rebase =>
    unfold settle
    rw [effect]
  | halt =>
    rw [settle_of_halt effect]
    rcases m.finish_cases p.start events with ⟨-, more, finished⟩ | ⟨-, finished⟩
    · rw [finished]
    · rw [finished]
      rfl
  | input dest =>
    obtain ⟨input, ⟨-, settled⟩ | ⟨_, -, settled⟩ | ⟨memory, settled⟩ | ⟨memory, fault, settled⟩⟩ :=
      settle_input_cases effect m events
    · rcases (m.withInput input).suspend_cases p.start events with ⟨-, more, suspended⟩ | ⟨-, suspended⟩
      · simp [settled, suspended] at counted
      · simp [settled, suspended] at counted
    · simp [settled] at counted
    · rw [settled]
    · simp [settled] at counted

theorem cycle_counted {m : Machine}
    (counted : m.cycle.result = .ok .advanced ∨ m.cycle.result = .ok .ended) :
    m.cycle.machine.steps = m.steps + 1 := by
  rcases m.dispatch_cases with ⟨i, effect, memory, events, -, -, dispatched⟩ | ⟨text, fault, memory, ip, events, struck⟩
  · rw [cycle_of_dispatched dispatched] at counted ⊢
    exact settle_counted counted
  · rw [cycle_of_struck struck] at counted
    simp at counted

theorem halted_input (m : Machine) : m.halted.channel.input = m.channel.input := by
  cases rest : m.state.isTerminal with
  | true => rw [halted_of_terminal rest]
  | false =>
    rw [halted_of_live rest]
    rfl

/-- Only an input instruction takes a word of input. -/
theorem cycle_input_of_other {m : Machine} (other : ¬ m.AtInput) :
    m.cycle.machine.channel.input = m.channel.input := by
  rcases m.dispatch_cases with
    ⟨i, effect, memory, events, fetched, evaluated, dispatched⟩ | ⟨text, fault, memory, ip, events, struck⟩
  · rw [cycle_of_dispatched dispatched]
    cases effect with
    | advance | jump | rebase | output => rfl
    | halt =>
      rw [settle_of_halt rfl]
      rcases finish_cases _ m.ip events with ⟨-, more, finished⟩ | ⟨-, finished⟩
      · rw [finished]
        rfl
      · rw [finished]
        rfl
    | input dest =>
      obtain ⟨rfl, -⟩ := Instruction.evaluate_input evaluated
      exact absurd ⟨dest, fetched⟩ other
  · rw [cycle_of_struck struck]
    exact halted_input _

/-- An input instruction that is carried out takes the first word. -/
theorem cycle_input_of_read {m : Machine} (suspends : m.Suspends) (running : m.state = .running) (atInput : m.AtInput)
    (counted : m.cycle.result = .ok .advanced ∨ m.cycle.result = .ok .ended) :
    ∃ word, m.channel.input = word :: m.cycle.machine.channel.input := by
  have served := served_of_result suspends running (by rcases counted with done | done <;> simp [done])
  have queued : m.channel.input ≠ [] := fun empty => served ⟨atInput, empty⟩
  obtain ⟨word, rest, front⟩ := List.exists_cons_of_ne_nil queued
  obtain ⟨dest, fetched⟩ := atInput
  refine ⟨word, ?_⟩
  have evaluated : (Instruction.input dest).evaluate m.relativeBase m.memory = .ok (.input dest) m.memory := rfl
  have dispatched := dispatch_of_evaluated fetched evaluated
  have read := readInput_of_queued (m := { m with ip := m.ip + (Instruction.input dest).size }) front
  rw [cycle_of_dispatched dispatched] at counted ⊢
  rcases receive_cases (withInput _ rest) m.ip (.input dest) dest word with
    ⟨memory, received⟩ | ⟨memory, fault, refused⟩
  · rw [settle_of_received rfl read received, front]
    rfl
  · rw [settle_of_refused rfl read refused] at counted
    simp at counted

end Machine

end IntegerMachine
