import IntegerMachine.Proofs.Stepping
import IntegerMachine.Worker

/-!
# Workers among others

A worker on its thread, and other parties that feed it, take its output and halt it, in any order of their
atomic actions (`World.run`). Whatever the order, the worker does what a cooperative machine does on all words
fed so far (`World.refines`).

The argument goes by an invariant for each phase of the worker (`Holds`). Between instructions the worker is
abreast of the cooperative machine (`Abreast`). Amid an instruction (`Amid`) the worker is abreast of what the
cooperative machine has become by fetching and evaluating it; a word that the worker has popped but not stored
yet is held apart. A wait that ends without a word puts the worker back to where the instruction began.
-/
namespace IntegerMachine

open Worker (Phase)

/-! ## Interleavings -/

/-- An atomic action of the worker or of another party. Looks of other parties at the run state or at an empty
    queue change nothing and are left out. -/
inductive Action where
  /-- The worker acts; `late` tells whether a wait of it has run out. -/
  | work (late : Bool)
  /-- A word is fed. -/
  | feed (word : Word)
  /-- A word is fed by a party that has looked at the run state before, at a time when the machine was not at
      rest. -/
  | send (word : Word)
  /-- A word of output is taken, if there is one. -/
  | take
  /-- The machine is halted. -/
  | halt

/-- A worker with the words that have been fed to it and those that have been taken from it. -/
structure World where
  worker : Worker
  fed : List Word
  consumed : List Word

namespace World

/-- One action. -/
def act (world : World) : Action → World
  | .work late => { world with worker := world.worker.step late }
  | .feed word =>
    match world.worker.channel.feed word with
    | .ok channel => { world with worker := world.worker.withChannel channel, fed := world.fed ++ [word] }
    | .error _ => world
  | .send word =>
    let channel := world.worker.channel
    { world with
      worker := world.worker.withChannel { channel with input := channel.input ++ [word] }
      fed := world.fed ++ [word] }
  | .take =>
    match world.worker.channel.tryConsume with
    | (some word, channel) =>
      { world with worker := world.worker.withChannel channel, consumed := world.consumed ++ [word] }
    | (none, _) => world
  | .halt => { world with worker := world.worker.halt.2 }

/-- Actions one after the other. -/
def run (world : World) (actions : List Action) : World := actions.foldl act world

end World

/-! ## Workers beside cooperative machines -/

namespace Machine

/-- The machine as a worker, with a channel of its own. -/
def asWorker (d : Machine) (channel : Channel) : Machine :=
  { d with config := { d.config with mode := .worker }, channel }

theorem dispatch_asWorker (d : Machine) (channel : Channel) :
    (d.asWorker channel).dispatch = d.dispatch.map (·.asWorker channel) := by
  cases fetched : d.fetch with
  | error fault =>
    rw [dispatch_of_unfetched fetched, dispatch_of_unfetched (m := d.asWorker channel) fetched]
    rfl
  | ok i =>
    cases evaluated : i.evaluate d.relativeBase d.memory with
    | ok effect memory =>
      rw [dispatch_of_evaluated fetched evaluated,
        dispatch_of_evaluated (m := d.asWorker channel) fetched evaluated]
      rfl
    | error fault memory =>
      rw [dispatch_of_faulted fetched evaluated, dispatch_of_faulted (m := d.asWorker channel) fetched evaluated]
      rfl

theorem receive_asWorker (d : Machine) (channel : Channel) (start : Nat) (i : Instruction) (dest : Argument)
    (word : Word) :
    (d.asWorker channel).receive start i dest word =
      ((d.receive start i dest word).1, (d.receive start i dest word).2.asWorker channel) := by
  cases d with | mk config memory ip relativeBase own steps outputCount lastOutput =>
  unfold receive asWorker
  simp only
  cases Memory.store dest relativeBase word memory <;> rfl

/-- The machine `m` is the machine `d` as a worker. Of its output some words have been consumed, and of its
    input it holds some that it has popped. -/
def Mirrors (consumed held : List Word) (m d : Machine) : Prop :=
  ∃ channel, m = d.asWorker channel ∧ consumed ++ channel.output.toList = d.output ∧
    held ++ channel.input = d.channel.input

/-- A machine that suspends and has not been started. -/
structure Fresh (m : Machine) : Prop extends m.Suspends where
  state : m.state = .initialising
  ip : m.ip = 0
  relativeBase : m.relativeBase = 0
  steps : m.steps = 0

/-- The worker is where the cooperative machine `start` comes to by some number of instructions. -/
def Abreast (start : Machine) (consumed : List Word) (m : Machine) : Prop :=
  ∃ reads count c, Stepped start reads count c ∧ Mirrors consumed [] m c.launched ∧
    (c.state = .ended → m.state.isTerminal) ∧ (m.state = .initialising → c = start)

/-- The cooperative machine has another instruction to carry out from where the worker is. -/
def Ahead (start : Machine) (consumed : List Word) (m : Machine) : Prop :=
  ∃ reads count c, Stepped start reads count c ∧ c.state.isTerminal = false ∧ Mirrors consumed [] m c.launched

/-- The worker is amid that instruction, which has been fetched and evaluated. -/
def Amid (start : Machine) (consumed held : List Word) (m : Machine) (p : Pending) : Prop :=
  ∃ reads count c d events, Stepped start reads count c ∧ c.state.isTerminal = false ∧
    c.launched.dispatch = ⟨.ok p, d, events⟩ ∧ Mirrors consumed held m d

/-- That instruction fails. -/
def Struck (start m : Machine) (failure : Failure) : Prop :=
  ∃ reads c, Stepped start reads m.steps c ∧ c.state.isTerminal = false ∧ c.step.result = .error failure

end Machine

open Machine

/-- What the phase of a worker says about the run state. -/
def Side : Phase → RunState → Prop
  | .resuming, _ | .returning, _ | .finished, _ | .halting _, _ | .failed _, _ | .collapsed, _ => True
  | .starting, state => state = .initialising ∨ state.isTerminal
  | .recovering failure, state => failure.isIdle ∨ state.isTerminal
  | .waiting _ _ .checkingQueue, state | .unanswered _, state => state.isTerminal
  | .checking, state | .dispatching, state | .reading .., state | .waiting .., state | .storing .., state
  | .emitting _, state | .ending _, state => state ≠ .initialising
  | .reviving, _ | .suspending _, _ => False

/-- What the phase of a worker says about the machine. -/
def Holds (start : Machine) (consumed : List Word) (m : Machine) : Phase → Prop
  | .resuming | .starting | .reviving | .checking | .recovering _ | .returning | .finished =>
    Abreast start consumed m
  | .dispatching => Ahead start consumed m
  | .reading p dest | .waiting p dest _ => Amid start consumed [] m p ∧ p.effect = .input dest
  | .storing p dest word => Amid start consumed [word] m p ∧ p.effect = .input dest
  | .unanswered p | .suspending p => ∃ dest, Amid start consumed [] m p ∧ p.effect = .input dest
  | .emitting word => ∃ p, Amid start consumed [] m p ∧ p.effect = .output word
  | .ending _ => ∃ p, Amid start consumed [] m p ∧ p.effect = .halt
  | .halting failure | .failed failure => Struck start m failure
  | .collapsed => ∃ failure, failure.isBreakdown ∧ Struck start m failure

/-- The invariant of a worker that has been fed what `start` has queued. -/
structure Tied (start : Machine) (consumed : List Word) (w : Worker) : Prop where
  unawaited : w.machine.state ≠ .awaitingInput
  side : Side w.phase w.machine.state
  holds : Holds start consumed w.machine w.phase

/-! ## The other parties -/

namespace Machine
variable {start m d : Machine} {consumed held : List Word} {p : Pending}

theorem Mirrors.fed (mirrors : Mirrors consumed held m d) (words : List Word) :
    Mirrors consumed held (m.fed words) (d.fed words) := by
  obtain ⟨channel, rfl, written, input⟩ := mirrors
  refine ⟨{ channel with input := channel.input ++ words }, rfl, written, ?_⟩
  rw [← List.append_assoc, input]
  rfl

theorem Mirrors.withState (mirrors : Mirrors consumed held m d) (state : RunState) :
    Mirrors consumed held (m.withState state) d := by
  obtain ⟨channel, rfl, written, input⟩ := mirrors
  exact ⟨{ channel with state }, rfl, written, input⟩

theorem Mirrors.taken {word : Word} {rest : List Word} (mirrors : Mirrors consumed held m d)
    (front : m.output = word :: rest) :
    Mirrors (consumed ++ [word]) held (m.mapChannel fun c => { c with output := rest.toArray }) d := by
  obtain ⟨channel, rfl, written, input⟩ := mirrors
  refine ⟨{ channel with output := rest.toArray }, rfl, ?_, input⟩
  rw [← written, show channel.output.toList = word :: rest from front, List.append_assoc]
  rfl

theorem Abreast.fed (abreast : Abreast start consumed m) (suspends : start.Suspends) (words : List Word) :
    Abreast (start.fed words) consumed (m.fed words) := by
  obtain ⟨reads, count, c, stepped, mirrors, ended, first⟩ := abreast
  refine ⟨reads, count, c.fed words, stepped.fed suspends words, ?_, ended, fun state => by rw [first state]⟩
  rw [launched_fed]
  exact mirrors.fed words

theorem Ahead.fed (ahead : Ahead start consumed m) (suspends : start.Suspends) (words : List Word) :
    Ahead (start.fed words) consumed (m.fed words) := by
  obtain ⟨reads, count, c, stepped, live, mirrors⟩ := ahead
  refine ⟨reads, count, c.fed words, stepped.fed suspends words, live, ?_⟩
  rw [launched_fed]
  exact mirrors.fed words

theorem Amid.fed (amid : Amid start consumed held m p) (suspends : start.Suspends) (words : List Word) :
    Amid (start.fed words) consumed held (m.fed words) p := by
  obtain ⟨reads, count, c, d, events, stepped, live, dispatched, mirrors⟩ := amid
  refine ⟨reads, count, c.fed words, d.fed words, events, stepped.fed suspends words, live, ?_, mirrors.fed words⟩
  rw [launched_fed, dispatch_fed, dispatched]
  rfl

theorem Struck.fed {failure : Failure} (struck : Struck start m failure) (suspends : start.Suspends)
    (words : List Word) : Struck (start.fed words) (m.fed words) failure := by
  obtain ⟨reads, c, stepped, live, failed⟩ := struck
  have served : c.step.result ≠ .ok .suspended := by
    rw [failed]
    rintro ⟨⟩
  refine ⟨reads, c.fed words, stepped.fed suspends words, live, ?_⟩
  rw [(step_fed (suspends.of_config stepped.config_eq) live served words).1, failed]

theorem Abreast.taken {word : Word} {rest : List Word} (abreast : Abreast start consumed m)
    (front : m.output = word :: rest) :
    Abreast start (consumed ++ [word]) (m.mapChannel fun c => { c with output := rest.toArray }) := by
  obtain ⟨reads, count, c, stepped, mirrors, ended, first⟩ := abreast
  exact ⟨reads, count, c, stepped, mirrors.taken front, ended, first⟩

theorem Ahead.taken {word : Word} {rest : List Word} (ahead : Ahead start consumed m)
    (front : m.output = word :: rest) :
    Ahead start (consumed ++ [word]) (m.mapChannel fun c => { c with output := rest.toArray }) := by
  obtain ⟨reads, count, c, stepped, live, mirrors⟩ := ahead
  exact ⟨reads, count, c, stepped, live, mirrors.taken front⟩

theorem Amid.taken {word : Word} {rest : List Word} (amid : Amid start consumed held m p)
    (front : m.output = word :: rest) :
    Amid start (consumed ++ [word]) held (m.mapChannel fun c => { c with output := rest.toArray }) p := by
  obtain ⟨reads, count, c, d, events, stepped, live, dispatched, mirrors⟩ := amid
  exact ⟨reads, count, c, d, events, stepped, live, dispatched, mirrors.taken front⟩

theorem Abreast.halted (abreast : Abreast start consumed m) : Abreast start consumed (m.withState .halted) := by
  obtain ⟨reads, count, c, stepped, mirrors, -⟩ := abreast
  refine ⟨reads, count, c, stepped, mirrors.withState .halted, fun _ => rfl, ?_⟩
  rintro ⟨⟩

theorem Ahead.halted (ahead : Ahead start consumed m) : Ahead start consumed (m.withState .halted) := by
  obtain ⟨reads, count, c, stepped, live, mirrors⟩ := ahead
  exact ⟨reads, count, c, stepped, live, mirrors.withState .halted⟩

theorem Amid.halted (amid : Amid start consumed held m p) : Amid start consumed held (m.withState .halted) p := by
  obtain ⟨reads, count, c, d, events, stepped, live, dispatched, mirrors⟩ := amid
  exact ⟨reads, count, c, d, events, stepped, live, dispatched, mirrors.withState .halted⟩

end Machine

theorem Side.halted {phase : Phase} {state : RunState} (side : Side phase state) : Side phase .halted := by
  unfold Side at side ⊢
  split at side <;> simp_all [RunState.isTerminal]

/-- The phases are stated by four relations, so that what keeps these keeps them all. -/
theorem Holds.imp {start start' m m' : Machine} {consumed consumed' : List Word} {phase : Phase}
    (abreast : Abreast start consumed m → Abreast start' consumed' m')
    (ahead : Ahead start consumed m → Ahead start' consumed' m')
    (amid : ∀ held p, Amid start consumed held m p → Amid start' consumed' held m' p)
    (struck : ∀ failure, Struck start m failure → Struck start' m' failure)
    (holds : Holds start consumed m phase) : Holds start' consumed' m' phase := by
  cases phase with
  | resuming | starting | reviving | checking | recovering | returning | finished => exact abreast holds
  | dispatching => exact ahead holds
  | reading p dest | waiting p dest | storing p dest => exact ⟨amid _ p holds.1, holds.2⟩
  | unanswered p | suspending p =>
    obtain ⟨dest, begun, effect⟩ := holds
    exact ⟨dest, amid _ p begun, effect⟩
  | emitting | ending =>
    obtain ⟨p, begun, effect⟩ := holds
    exact ⟨p, amid _ p begun, effect⟩
  | halting failure | failed failure => exact struck failure holds
  | collapsed =>
    obtain ⟨failure, breakdown, failed⟩ := holds
    exact ⟨failure, breakdown, struck failure failed⟩

namespace Tied
variable {start : Machine} {consumed : List Word} {w : Worker}

theorem fed (tied : Tied start consumed w) (suspends : start.Suspends) (words : List Word) :
    Tied (start.fed words) consumed { w with machine := w.machine.fed words } where
  unawaited := tied.unawaited
  side := tied.side
  holds := tied.holds.imp (·.fed suspends words) (·.fed suspends words) (fun _ _ amid => amid.fed suspends words)
    fun _ struck => struck.fed suspends words

theorem taken {word : Word} {rest : List Word} (tied : Tied start consumed w)
    (front : w.machine.output = word :: rest) :
    Tied start (consumed ++ [word])
      { w with machine := w.machine.mapChannel fun c => { c with output := rest.toArray } } where
  unawaited := tied.unawaited
  side := tied.side
  holds := tied.holds.imp (·.taken front) (·.taken front) (fun _ _ amid => amid.taken front) fun _ struck => struck

theorem halted (tied : Tied start consumed w) : Tied start consumed w.halt.2 := by
  have same : w.halt.2 = { w with machine := w.machine.halted } := by
    unfold Worker.halt Machine.halted Machine.mapChannel
    rcases w.machine.channel.halt with ⟨changed, channel⟩
    rfl
  rw [same]
  cases rest : w.machine.state.isTerminal with
  | true =>
    rw [halted_of_terminal rest]
    exact tied
  | false =>
    rw [halted_of_live rest]
    refine ⟨?_, tied.side.halted, ?_⟩
    · rintro ⟨⟩
    · exact tied.holds.imp (·.halted) (·.halted) (fun _ _ amid => amid.halted) fun _ struck => struck

end Tied

/-! ## The worker -/

namespace Machine
variable {start m c d : Machine} {consumed held : List Word} {p : Pending} {reads count : Nat} {events : Array Event}

theorem launched_of_fresh (fresh : start.Fresh) :
    start.launched = { start.withState .running with ip := 0, relativeBase := 0 } := by
  unfold launched
  rw [fresh.state]

theorem Abreast.started (abreast : Abreast start consumed m) (fresh : start.Fresh) (state : m.state = .initialising) :
    Abreast start consumed { m.withState .running with ip := 0, relativeBase := 0 } := by
  obtain ⟨reads, count, c, stepped, ⟨channel, rfl, written, input⟩, ended, first⟩ := abreast
  obtain rfl := first state
  refine ⟨reads, count, c, stepped, ⟨{ channel with state := .running }, ?_, written, input⟩, ?_, ?_⟩
  · rw [launched_of_fresh fresh]
    rfl
  · intro atEnd
    rw [fresh.state] at atEnd
    cases atEnd
  · rintro ⟨⟩

theorem Abreast.ahead (abreast : Abreast start consumed m) (fresh : start.Fresh) (running : m.state = .running) :
    Ahead start consumed m := by
  obtain ⟨reads, count, c, stepped, mirrors, ended, -⟩ := abreast
  refine ⟨reads, count, c, stepped, ?_, mirrors⟩
  rcases stepped.state_cases fresh.toSuspends with rfl | state | state
  · rw [fresh.state]
    rfl
  · rw [state]
    rfl
  · exact absurd running (RunState.stopped_of_terminal (ended state))

theorem dispatched_running (live : c.state.isTerminal = false)
    (dispatched : c.launched.dispatch = ⟨.ok p, d, events⟩) : d.state = .running := by
  have kept := congrArg Channel.state (dispatch_kept dispatched).1
  exact kept.trans (launched_running live)

/-- The worker has completed the instruction. -/
theorem abreast_of_settled (suspends : start.Suspends) (stepped : Stepped start reads count c)
    (live : c.state.isTerminal = false) (dispatched : c.launched.dispatch = ⟨.ok p, d, events⟩)
    (counted : (d.settle p events).result = .ok .advanced ∨ (d.settle p events).result = .ok .ended)
    (mirrors : Mirrors consumed [] m (d.settle p events).machine) (started : m.state ≠ .initialising)
    (ended : (d.settle p events).machine.state = .ended → m.state.isTerminal) : Abreast start consumed m := by
  obtain ⟨result, machine⟩ := step_of_live live
  rw [cycle_of_dispatched dispatched] at result machine
  have counts : c.Counts := by
    rw [Counts, result]
    exact counted
  obtain ⟨more, later⟩ := stepped.next counts
  have relaunched : c.step.machine.launched = c.step.machine := by
    rcases counts.state (suspends.of_config stepped.config_eq) with state | state
    · exact launched_of_running state
    · exact launched_of_terminal (by rw [state]; rfl)
  refine ⟨more, count + 1, c.step.machine, later, ?_, ?_, fun state => absurd state started⟩
  · rw [relaunched, machine]
    exact mirrors
  · rw [machine]
    exact ended

/-- The instruction fails for the cooperative machine too. -/
theorem struck_of_failed {failure : Failure} (fresh : start.Fresh) (stepped : Stepped start reads count c)
    (live : c.state.isTerminal = false) (failed : c.launched.cycle.result = .error failure)
    (steps : m.steps = c.steps) : Struck start m failure := by
  have same : count = m.steps := by rw [steps, stepped.steps_eq, fresh.steps, Nat.zero_add]
  subst same
  exact ⟨reads, c, stepped, live, (step_of_live live).1.trans failed⟩

theorem Amid.unserved (amid : Amid start consumed held m p) (suspends : start.Suspends) :
    m.config.defaultInput = none := by
  obtain ⟨reads, count, c, d, events, stepped, -, dispatched, channel, rfl, -⟩ := amid
  change d.config.defaultInput = none
  rw [(dispatch_kept dispatched).2.2, launched_config, stepped.config_eq]
  exact suspends.unserved

theorem Amid.popped {word : Word} {channel : Channel} (amid : Amid start consumed [] m p)
    (popped : m.channel.pop? .input = some (word, channel)) :
    Amid start consumed [word] { m with channel } p ∧ channel.state = m.state := by
  obtain ⟨reads, count, c, d, events, stepped, live, dispatched, own, rfl, written, input⟩ := amid
  obtain ⟨front, same⟩ := Channel.pop?_input_eq_some popped
  refine ⟨⟨reads, count, c, d, events, stepped, live, dispatched, channel, rfl, ?_, ?_⟩, ?_⟩
  · rw [same]
    exact written
  · rw [← input]
    exact front.symm
  · rw [same]
    rfl

/-- The worker has found no word for the input instruction, and is back to where it began. -/
theorem Amid.rewound {dest : Argument} (amid : Amid start consumed [] m p) (effect : p.effect = .input dest)
    (started : m.state ≠ .initialising) : Abreast start consumed { m with ip := p.start } ∧
      ({ m with ip := p.start } : Machine).AtInput := by
  obtain ⟨reads, count, c, d, events, stepped, live, dispatched, channel, rfl, written, input⟩ := amid
  rcases c.launched.dispatch_cases with
    ⟨i, evaluation, memory, more, fetched, evaluated, found⟩ | ⟨text, fault, memory, ip, more, struck⟩
  · cases dispatched.symm.trans found
    obtain rfl : evaluation = .input dest := effect
    obtain ⟨rfl, rfl⟩ := Instruction.evaluate_input evaluated
    refine ⟨⟨reads, count, c, stepped, ⟨channel, rfl, written, input⟩, fun atEnd => ?_, ?_⟩, dest, fetched⟩
    · rw [atEnd] at live
      cases live
    · exact fun state => absurd state started
  · cases dispatched.symm.trans struck

end Machine

namespace Tied
variable {start m : Machine} {consumed : List Word} {p : Pending} {dest : Argument} {events : Array Event}

theorem of_struck {failure : Failure} (struck : Struck start m failure) (unawaited : m.state ≠ .awaitingInput)
    (events : Array Event) : Tied start consumed (Worker.strike m failure events) := by
  unfold Worker.strike
  by_cases breakdown : failure.isBreakdown
  · rw [if_pos breakdown]
    exact ⟨unawaited, trivial, failure, breakdown, struck⟩
  · rw [if_neg breakdown]
    exact ⟨unawaited, trivial, struck⟩

theorem dispatching (ahead : Ahead start consumed m) (fresh : start.Fresh) (started : m.state ≠ .initialising)
    (unawaited : m.state ≠ .awaitingInput) (late : Bool) (log : Array Event) :
    Tied start consumed (Worker.step late ⟨m, .dispatching, log⟩) := by
  obtain ⟨reads, count, c, stepped, live, channel, rfl, written, input⟩ := ahead
  have suspends := fresh.toSuspends
  rcases c.launched.dispatch_cases with
    ⟨i, effect, memory, events, -, -, dispatched⟩ | ⟨text, fault, memory, ip, events, struck⟩
  · have found := c.launched.dispatch_asWorker channel
    rw [dispatched] at found
    simp only [Worker.step, found, Outcome.map]
    have amid : Amid start consumed [] _ ⟨c.launched.ip, i, effect⟩ :=
      ⟨reads, count, c, _, events, stepped, live, dispatched, channel, rfl, written, input⟩
    cases effect with
    | advance | jump | rebase =>
      refine ⟨unawaited, started, abreast_of_settled suspends stepped live dispatched (.inl rfl)
        ⟨channel, rfl, written, input⟩ started fun atEnd => ?_⟩
      cases (dispatched_running live dispatched).symm.trans atEnd
    | output word => exact ⟨unawaited, started, _, amid, rfl⟩
    | halt => exact ⟨unawaited, started, _, amid, rfl⟩
    | input dest => exact ⟨unawaited, started, amid, rfl⟩
  · have found := c.launched.dispatch_asWorker channel
    rw [struck] at found
    simp only [Worker.step, found, Outcome.map]
    have failed := congrArg Outcome.result (cycle_of_struck struck)
    refine of_struck ?_ ?_ _
    · exact struck_of_failed fresh stepped live failed c.launched_steps
    · exact unawaited

theorem of_popped {word : Word} {channel : Channel} (amid : Amid start consumed [] m p)
    (effect : p.effect = .input dest) (started : m.state ≠ .initialising) (unawaited : m.state ≠ .awaitingInput)
    (popped : m.channel.pop? .input = some (word, channel)) (log : Array Event) :
    Tied start consumed ⟨{ m with channel }, .storing p dest word, log⟩ := by
  obtain ⟨held, state⟩ := amid.popped popped
  refine ⟨fun awaiting => ?_, fun fresh => ?_, held, effect⟩
  · exact unawaited (state.symm.trans awaiting)
  · exact started (state.symm.trans fresh)

theorem reading (amid : Amid start consumed [] m p) (effect : p.effect = .input dest) (fresh : start.Fresh)
    (started : m.state ≠ .initialising) (unawaited : m.state ≠ .awaitingInput) (late : Bool) (log : Array Event) :
    Tied start consumed (Worker.step late ⟨m, .reading p dest, log⟩) := by
  have unserved := amid.unserved fresh.toSuspends
  simp only [Worker.step, Worker.read]
  cases popped : m.channel.pop? .input with
  | some front => exact of_popped amid effect started unawaited popped log
  | none =>
    simp only [unserved]
    exact ⟨unawaited, started, amid, effect⟩

theorem waiting {wait : Wait} (amid : Amid start consumed [] m p) (effect : p.effect = .input dest)
    (side : Side (.waiting p dest wait) m.state) (unawaited : m.state ≠ .awaitingInput) (late : Bool)
    (log : Array Event) : Tied start consumed (Worker.step late ⟨m, .waiting p dest wait, log⟩) := by
  simp only [Worker.step, Worker.await]
  cases wait with
  | polling =>
    simp only [Wait.step]
    cases popped : m.channel.pop? .input with
    | some front => exact of_popped amid effect side unawaited popped log
    | none => exact ⟨unawaited, side, amid, effect⟩
  | checkingState =>
    simp only [Wait.step]
    by_cases atRest : m.channel.state.isTerminal
    · rw [if_pos atRest]
      exact ⟨unawaited, atRest, amid, effect⟩
    · rw [if_neg atRest]
      exact ⟨unawaited, side, amid, effect⟩
  | checkingQueue =>
    have atRest : m.state.isTerminal := side
    simp only [Wait.step]
    by_cases empty : (m.channel.queued .input).isEmpty
    · rw [if_pos empty]
      exact ⟨unawaited, atRest, dest, amid, effect⟩
    · rw [if_neg empty]
      exact ⟨unawaited, RunState.started_of_terminal atRest, amid, effect⟩
  | checkingClock =>
    simp only [Wait.step]
    by_cases expired : late = true
    · rw [if_pos expired]
      exact ⟨unawaited, .inl rfl, (amid.rewound effect side).1⟩
    · rw [if_neg expired]
      exact ⟨unawaited, side, amid, effect⟩

theorem storing {word : Word} (amid : Amid start consumed [word] m p) (effect : p.effect = .input dest)
    (fresh : start.Fresh) (started : m.state ≠ .initialising) (unawaited : m.state ≠ .awaitingInput) (late : Bool)
    (log : Array Event) : Tied start consumed (Worker.step late ⟨m, .storing p dest word, log⟩) := by
  obtain ⟨reads, count, c, d, events, stepped, live, dispatched, channel, rfl, written, input⟩ := amid
  -- The popped word is still the first on the queue of the cooperative machine, which reads it now.
  have read := readInput_of_queued (m := d) input.symm
  have received := (d.withInput channel.input).receive_asWorker channel p.start p.instruction dest word
  rw [show d.asWorker channel = (d.withInput channel.input).asWorker channel from rfl]
  simp only [Worker.step, received]
  rcases (d.withInput channel.input).receive_cases p.start p.instruction dest word with
    ⟨memory, stored⟩ | ⟨memory, fault, refused⟩
  · have settled := settle_of_received effect read stored events
    simp only [stored]
    refine ⟨unawaited, started, ?_⟩
    refine abreast_of_settled fresh.toSuspends stepped live dispatched (by rw [settled]; exact .inl rfl) ?_ started ?_
    · rw [settled]
      exact ⟨channel, rfl, written, rfl⟩
    · rw [settled]
      intro atEnd
      cases (dispatched_running live dispatched).symm.trans atEnd
  · have failed := cycle_of_dispatched dispatched
    rw [settle_of_refused effect read refused] at failed
    have steps := (dispatch_kept dispatched).2.1.trans c.launched_steps
    simp only [refused]
    refine of_struck ?_ ?_ log
    · exact struck_of_failed fresh stepped live (congrArg Outcome.result failed) steps
    · exact unawaited

theorem emitting {word : Word} (amid : Amid start consumed [] m p) (effect : p.effect = .output word)
    (fresh : start.Fresh) (started : m.state ≠ .initialising) (unawaited : m.state ≠ .awaitingInput) (late : Bool)
    (log : Array Event) : Tied start consumed (Worker.step late ⟨m, .emitting word, log⟩) := by
  obtain ⟨reads, count, c, d, events, stepped, live, dispatched, channel, rfl, written, input⟩ := amid
  have settled : d.settle p events = ⟨.ok .advanced, (d.emit word).counted, events⟩ := by
    unfold settle
    rw [effect]
  refine ⟨unawaited, started, ?_⟩
  refine abreast_of_settled fresh.toSuspends stepped live dispatched (by rw [settled]; exact .inl rfl) ?_ started ?_
  · rw [settled]
    refine ⟨channel.emit word, rfl, ?_, input⟩
    have more := congrArg (· ++ [word]) written
    simpa [Channel.emit, Machine.emit, counted, output] using more
  · rw [settled]
    intro atEnd
    cases (dispatched_running live dispatched).symm.trans atEnd

theorem terminal_of_stopped {state : RunState} (stopped : state ≠ .running) (started : state ≠ .initialising)
    (unawaited : state ≠ .awaitingInput) : state.isTerminal := by
  cases state with
  | initialising => exact absurd rfl started
  | running => exact absurd rfl stopped
  | awaitingInput => exact absurd rfl unawaited
  | ended | halted => rfl

theorem ending (amid : Amid start consumed [] m p) (effect : p.effect = .halt) (fresh : start.Fresh)
    (started : m.state ≠ .initialising) (unawaited : m.state ≠ .awaitingInput) (late : Bool) (ip : Nat)
    (log : Array Event) : Tied start consumed (Worker.step late ⟨m, .ending ip, log⟩) := by
  obtain ⟨reads, count, c, d, events, stepped, live, dispatched, channel, rfl, written, input⟩ := amid
  -- The cooperative machine ends. The worker ends too, unless it has been halted since it last looked.
  obtain ⟨more, finished⟩ := finish_of_running (dispatched_running live dispatched) p.start events
  have settled := (settle_of_halt effect).trans finished
  have counted : (d.settle p events).result = .ok .ended := by rw [settled]
  simp only [Worker.step]
  rcases (d.asWorker channel).finish_cases ip #[] with ⟨-, last, ended⟩ | ⟨stopped, ended⟩
  · simp only [ended]
    refine ⟨by rintro ⟨⟩, by rintro ⟨⟩, ?_⟩
    refine abreast_of_settled fresh.toSuspends stepped live dispatched (.inr counted) ?_ ?_ fun _ => rfl
    · rw [settled]
      exact ⟨{ channel with state := .ended }, rfl, written, input⟩
    · rintro ⟨⟩
  · simp only [ended]
    refine ⟨unawaited, started, ?_⟩
    refine abreast_of_settled fresh.toSuspends stepped live dispatched (.inr counted) ?_ started fun _ => ?_
    · rw [settled]
      exact ⟨channel, rfl, written, input⟩
    · exact terminal_of_stopped stopped started unawaited

/-- Every action of the worker keeps it tied to the cooperative machine. -/
theorem step {w : Worker} (tied : Tied start consumed w) (fresh : start.Fresh) (late : Bool) :
    Tied start consumed (w.step late) := by
  obtain ⟨m, phase, log⟩ := w
  obtain ⟨unawaited, side, holds⟩ := tied
  cases phase with
  | resuming =>
    simp only [Worker.step]
    cases state : m.state with
    | initialising => exact ⟨unawaited, .inl state, holds⟩
    | running =>
      refine ⟨unawaited, fun initialising => ?_, holds⟩
      cases state.symm.trans initialising
    | awaitingInput => exact absurd state unawaited
    | ended | halted => exact ⟨unawaited, .inr (by rw [state]; rfl), holds⟩
  | starting =>
    simp only [Worker.step, Machine.start]
    by_cases state : m.state = .initialising
    · have moved : m.channel.transition? .initialising .running = some { m.channel with state := .running } :=
        if_pos state
      simp only [moved]
      exact ⟨by rintro ⟨⟩, by rintro ⟨⟩, holds.started fresh state⟩
    · have unmoved : m.channel.transition? .initialising .running = none := if_neg state
      simp only [unmoved]
      exact ⟨unawaited, .inr (side.resolve_left state), holds⟩
  | reviving => exact side.elim
  | checking =>
    simp only [Worker.step]
    by_cases running : m.state = .running
    · rw [if_pos running]
      exact ⟨unawaited, side, holds.ahead fresh running⟩
    · rw [if_neg running]
      exact ⟨unawaited, trivial, holds⟩
  | dispatching => exact dispatching holds fresh side unawaited late log
  | reading p dest => exact reading holds.1 holds.2 fresh side unawaited late log
  | waiting p dest wait => exact waiting holds.1 holds.2 side unawaited late log
  | storing p dest word => exact storing holds.1 holds.2 fresh side unawaited late log
  | unanswered p =>
    obtain ⟨dest, amid, effect⟩ := holds
    have atRest : m.state.isTerminal := side
    have stopped := RunState.stopped_of_terminal atRest
    have started := RunState.started_of_terminal atRest
    simp only [Worker.step, if_neg stopped]
    exact ⟨unawaited, started, (amid.rewound effect started).1⟩
  | suspending p => exact side.elim
  | emitting word =>
    obtain ⟨p, amid, effect⟩ := holds
    exact emitting amid effect fresh side unawaited late log
  | ending ip =>
    obtain ⟨p, amid, effect⟩ := holds
    exact ending amid effect fresh side unawaited late ip log
  | halting failure =>
    simp only [Worker.step]
    cases rest : m.state.isTerminal with
    | true =>
      rw [halted_of_terminal rest]
      exact ⟨unawaited, trivial, holds⟩
    | false =>
      rw [halted_of_live rest]
      exact ⟨by rintro ⟨⟩, trivial, holds⟩
  | recovering failure =>
    simp only [Worker.step]
    by_cases atRest : m.state.isTerminal
    · rw [if_pos atRest]
      exact ⟨unawaited, trivial, holds⟩
    · have idle : failure.isIdle := side.resolve_right atRest
      rw [if_neg atRest, if_pos idle]
      exact ⟨unawaited, trivial, holds⟩
  | returning => exact ⟨unawaited, trivial, holds⟩
  | finished | failed | collapsed => exact ⟨unawaited, side, holds⟩

end Tied

/-! ## Refinement -/

/-- A new cooperative machine with words queued. -/
def Machine.cooperative (program : List Word) (config : Config) (words : List Word) : Machine :=
  (ofProgram program { config with mode := .cooperative }).fed words

/-- The worker is between two instructions. -/
def Worker.Phase.isBetween : Phase → Bool
  | .resuming | .starting | .reviving | .checking | .dispatching | .recovering _ | .returning | .finished => true
  | _ => false

theorem Machine.cooperative_fresh (program : List Word) {config : Config} (unserved : config.defaultInput = none)
    (words : List Word) : (cooperative program config words).Fresh :=
  ⟨⟨rfl, unserved⟩, rfl, rfl, rfl, rfl⟩

theorem Machine.Stepped.launched_same {start c : Machine} {reads count : Nat} (stepped : Stepped start reads count c)
    (fresh : start.Fresh) : SameProgress c c.launched := by
  rcases stepped.state_cases fresh.toSuspends with rfl | state | state
  · rw [launched_of_fresh fresh]
    exact ⟨rfl, fresh.ip.symm, fresh.relativeBase.symm, rfl, rfl, rfl⟩
  · rw [launched_of_running state]
    exact ⟨rfl, rfl, rfl, rfl, rfl, rfl⟩
  · rw [launched_of_terminal (by rw [state]; rfl)]
    exact ⟨rfl, rfl, rfl, rfl, rfl, rfl⟩

/-- What a worker between instructions has in common with a cooperative machine that has carried out as many. -/
theorem Machine.Mirrors.same {start m c : Machine} {consumed : List Word} {reads count : Nat} (fresh : start.Fresh)
    (stepped : Stepped start reads count c) (mirrors : Mirrors consumed [] m c.launched) :
    Stepped start reads m.steps c ∧ SameProgress c m ∧ consumed ++ m.output = c.output ∧
      m.channel.input = start.channel.input.drop reads ∧ reads ≤ start.channel.input.length := by
  obtain ⟨channel, rfl, written, input⟩ := mirrors
  obtain ⟨memory, ip, relativeBase, steps, outputCount, lastOutput⟩ := stepped.launched_same fresh
  obtain ⟨left, enough⟩ := stepped.input_eq fresh.toSuspends
  have counted : (c.launched.asWorker channel).steps = count := by
    rw [show (c.launched.asWorker channel).steps = c.launched.steps from rfl, steps, stepped.steps_eq, fresh.steps,
      Nat.zero_add]
  rw [counted]
  refine ⟨stepped, ⟨memory, ip, relativeBase, steps, outputCount, lastOutput⟩, ?_, ?_, enough⟩
  · exact written.trans c.launched_output
  · exact input.trans (c.launched_input.trans left)

theorem Machine.Struck.faulted {start m : Machine} {failure : Failure} (struck : Struck start m failure)
    (fresh : start.Fresh) : ∃ reads c text fault, Stepped start reads m.steps c ∧
      c.step.result = .error failure ∧ failure = .faulted start.name c.ip text fault := by
  obtain ⟨reads, c, stepped, live, failed⟩ := struck
  have config := c.launched_config.trans stepped.config_eq
  have cycled := (step_of_live live).1.symm.trans failed
  obtain ⟨⟨text, fault, rfl⟩, -⟩ :=
    cycle_failed ((congrArg Config.mode config).trans fresh.mode) (launched_running live) cycled
  refine ⟨reads, c, text, fault, stepped, failed, ?_⟩
  rw [(stepped.launched_same fresh).ip, name, config]
  rfl

namespace World
variable {program : List Word} {config : Config}

/-- The worker is where a cooperative machine comes to by as many instructions, if all words that the worker has
    been fed are queued for it in advance. Each input instruction up to there has taken the first word left. -/
def InStep (program : List Word) (config : Config) (world : World) : Prop :=
  ∃ reads c, Stepped (cooperative program config world.fed) reads world.worker.machine.steps c ∧
    SameProgress c world.worker.machine ∧
    world.consumed ++ world.worker.machine.output = c.output ∧
    world.worker.machine.channel.input = world.fed.drop reads ∧ reads ≤ world.fed.length

/-- The instruction that this cooperative machine comes to fails, and fails like this. -/
def Fails (program : List Word) (config : Config) (world : World) (failure : Failure) : Prop :=
  ∃ reads c text fault, Stepped (cooperative program config world.fed) reads world.worker.machine.steps c ∧
    c.step.result = .error failure ∧ failure = .faulted config.name c.ip text fault

theorem act_tied {world : World} (unserved : config.defaultInput = none) (action : Action)
    (tied : Tied (cooperative program config world.fed) world.consumed world.worker) :
    Tied (cooperative program config (world.act action).fed) (world.act action).consumed
      (world.act action).worker := by
  have fresh := cooperative_fresh program unserved world.fed
  have send : ∀ word, Tied (cooperative program config (world.fed ++ [word])) world.consumed
      { world.worker with machine := world.worker.machine.fed [word] } := by
    intro word
    have fed := tied.fed fresh.toSuspends [word]
    rw [cooperative, fed_fed] at fed
    exact fed
  cases action with
  | work late => exact tied.step fresh late
  | feed word =>
    cases rest : world.worker.channel.state.isTerminal with
    | true =>
      have refused : world.worker.channel.feed word = _ := feedAll_of_terminal rest (List.cons_ne_nil word [])
      simp only [act, refused]
      exact tied
    | false =>
      have accepted : world.worker.channel.feed word = _ := feedAll_of_live rest [word]
      simp only [act, accepted]
      exact send word
  | send word => exact send word
  | take =>
    cases front : world.worker.channel.queued .output with
    | nil =>
      simp only [act, Channel.tryConsume, Channel.pop?, front]
      exact tied
    | cons word rest =>
      simp only [act, Channel.tryConsume, Channel.pop?, front]
      exact tied.taken front
  | halt => exact tied.halted

theorem run_tied (unserved : config.defaultInput = none) (actions : List Action) (world : World)
    (tied : Tied (cooperative program config world.fed) world.consumed world.worker) :
    Tied (cooperative program config (world.run actions).fed) (world.run actions).consumed
      (world.run actions).worker := by
  induction actions generalizing world with
  | nil => exact tied
  | cons action actions ih => exact ih (world.act action) (act_tied unserved action tied)

theorem spawn_tied {w : Worker} (unserved : config.defaultInput = none)
    (spawned : Worker.spawn (.ofProgram program config) = .ok w) : Tied (cooperative program config []) [] w := by
  have fresh := cooperative_fresh program unserved []
  unfold Worker.spawn at spawned
  split at spawned
  · cases spawned
  · split at spawned
    · cases spawned
    · cases spawned
      refine ⟨by rintro ⟨⟩, trivial, 0, 0, _, .begin, ⟨.ofConfig config, ?_, rfl, rfl⟩, ?_, fun _ => rfl⟩
      · rw [launched_of_fresh fresh]
        rfl
      · rintro ⟨⟩

theorem inStep_of_tied {world : World} (unserved : config.defaultInput = none)
    (tied : Tied (cooperative program config world.fed) world.consumed world.worker)
    (between : world.worker.phase.isBetween) : InStep program config world := by
  have fresh := cooperative_fresh program unserved world.fed
  have ⟨reads, count, c, stepped, mirrors⟩ : ∃ reads count c,
      Stepped (cooperative program config world.fed) reads count c ∧
        Mirrors world.consumed [] world.worker.machine c.launched := by
    have holds := tied.holds
    cases phase : world.worker.phase with
    | resuming | starting | reviving | checking | recovering | returning | finished =>
      rw [phase] at holds
      obtain ⟨reads, count, c, stepped, mirrors, -⟩ := holds
      exact ⟨reads, count, c, stepped, mirrors⟩
    | dispatching =>
      rw [phase] at holds
      obtain ⟨reads, count, c, stepped, -, mirrors⟩ := holds
      exact ⟨reads, count, c, stepped, mirrors⟩
    | _ =>
      rw [phase] at between
      cases between
  exact ⟨reads, c, mirrors.same fresh stepped⟩

theorem expired_of_tied {world : World} {p : Pending} {dest : Argument}
    (tied : Tied (cooperative program config world.fed) world.consumed world.worker)
    (phase : world.worker.phase = .waiting p dest .checkingClock) :
    (world.act (.work true)).worker.machine = { world.worker.machine with ip := p.start } ∧
      (world.act (.work true)).worker.machine.AtInput ∧ (world.act (.work true)).worker.phase.isBetween := by
  obtain ⟨⟨m, _, log⟩, fed, consumed⟩ := world
  obtain rfl : _ = Phase.waiting p dest .checkingClock := phase
  obtain ⟨-, side, amid, effect⟩ := tied
  exact ⟨rfl, (amid.rewound effect side).2, rfl⟩

/-- Whatever the others do and whenever they do it, a worker does what a cooperative machine does. Between
    instructions it is in step with one, and the instruction that it fails at fails alike there. A wait that runs
    out puts it back before the input instruction, and changes nothing else. -/
theorem refines {w : Worker} (unserved : config.defaultInput = none)
    (spawned : Worker.spawn (.ofProgram program config) = .ok w) (actions : List Action) {world : World}
    (acted : World.run ⟨w, [], []⟩ actions = world) :
    (world.worker.phase.isBetween → InStep program config world) ∧
    (∀ failure, world.worker.phase = .halting failure ∨ world.worker.phase = .failed failure →
      Fails program config world failure) ∧
    (world.worker.phase = .collapsed → ∃ failure, failure.isBreakdown ∧ Fails program config world failure) ∧
    ∀ p dest, world.worker.phase = .waiting p dest .checkingClock →
      (world.act (.work true)).worker.machine = { world.worker.machine with ip := p.start } ∧
      (world.act (.work true)).worker.machine.AtInput ∧
      (world.act (.work true)).worker.phase.isBetween := by
  have tied := run_tied unserved actions ⟨w, [], []⟩ (spawn_tied unserved spawned)
  rw [acted] at tied
  have fresh := cooperative_fresh program unserved world.fed
  have holds := tied.holds
  refine ⟨inStep_of_tied unserved tied, ?_, ?_, fun p dest => expired_of_tied tied⟩
  · rintro failure (phase | phase)
    · rw [phase] at holds
      exact Struck.faulted holds fresh
    · rw [phase] at holds
      exact Struck.faulted holds fresh
  · intro phase
    rw [phase] at holds
    obtain ⟨failure, breakdown, struck⟩ := holds
    exact ⟨failure, breakdown, struck.faulted fresh⟩

/-- A worker that hands one word on waits in vain once, is fed then, and is halted when its output has been
    taken. -/
theorem refines_relay :
    let before := List.replicate 7 (.work false)
    let after := .work true :: .feed 5 :: List.replicate 9 (.work false) ++ [.take, .halt, .work false]
    ∃ w p dest world, Worker.spawn (.ofProgram [3, 0, 4, 0, 99] {}) = .ok w ∧
      (World.run ⟨w, [], []⟩ before).worker.phase = .waiting p dest .checkingClock ∧
      ((World.run ⟨w, [], []⟩ before).act (.work true)).worker.machine.AtInput ∧
      World.run ⟨w, [], []⟩ (before ++ after) = world ∧
      world.consumed = [5] ∧ world.worker.phase = .returning ∧ InStep [3, 0, 4, 0, 99] {} world := by
  intro before after
  have refined := fun actions => @refines [3, 0, 4, 0, 99] {} _ rfl rfl actions _ rfl
  obtain ⟨-, -, -, expired⟩ := refined before
  obtain ⟨between, -⟩ := refined (before ++ after)
  exact ⟨_, _, _, _, rfl, rfl, (expired _ _ rfl).2.1, rfl, rfl, rfl, between rfl⟩

end World

end IntegerMachine
