import IntegerMachine.Proofs.Execution
import IntegerMachine.Worker
import Mathlib.Logic.Relation

/-!
# Calls among others

Where several parties hold handles on a channel, a call is no single action. A machine that its owner drives on some
thread looks at the run state and changes it, and takes from the queues and adds to them, one atomic action after the
other (`Thread.step`). A call that halts a machine is a loop: it looks at the run state and tries to exchange what it
has seen, until it succeeds or sees the machine at rest (`Halting.step`).

Left alone, each does what it does as a single action: a halting call halts (`Halting.alone`), and a thread comes to
what the call on the machine comes to (`Thread.alone`). A worker is a thread on which `resume` is called again and
again: each of its actions is some of such a thread (`Worker.step_on`).
-/
namespace IntegerMachine

/-! ## Halting -/

/-- Where a call stands that halts a machine. -/
inductive Halting where
  /-- To look at the run state. -/
  | looking
  /-- To exchange the run state, if it still is the one seen. -/
  | exchanging (seen : RunState)
  /-- The call has come back, and tells whether it has halted the machine. -/
  | answered (changed : Bool)
  deriving DecidableEq

namespace Halting

/-- How a halting call goes on once it has seen a run state. -/
def seeing (state : RunState) : Halting := if state.isTerminal then .answered false else .exchanging state

/-- One atomic action of a halting call. An exchange that fails tells the run state it has found. -/
def step (c : Channel) : Halting → Halting × Channel
  | .looking => (seeing c.state, c)
  | .exchanging seen =>
    match c.transition? seen .halted with
    | some c => (.answered true, c)
    | none => (seeing c.state, c)
  | .answered changed => (.answered changed, c)

theorem seeing_of_terminal {state : RunState} (atRest : state.isTerminal) : seeing state = .answered false :=
  if_pos atRest

theorem seeing_of_live {state : RunState} (live : state.isTerminal = false) : seeing state = .exchanging state :=
  if_neg (by rw [live]; exact nofun)

end Halting

/-! ## Driving -/

/-- The calls that make a machine carry out instructions. -/
inductive Drive where
  | run
  | resume
  | step
  deriving DecidableEq

/-- What such a call answers if it does not fail. -/
inductive Drive.Answer where
  | rests (state : RunState)
  | stepped (step : Step)
  deriving DecidableEq

/-- Where a thread stands: the action it is about to take. -/
inductive Thread.Phase where
  /-- No call has been made yet. -/
  | idle
  /-- To look at the run state and decide how to go on. -/
  | entering
  /-- To set a new machine running. -/
  | starting
  /-- To set a suspended machine running. -/
  | reviving
  /-- To look whether the machine still runs before the next instruction. -/
  | checking
  /-- To fetch and evaluate an instruction. -/
  | dispatching
  /-- To settle the effect of an evaluated instruction. -/
  | settling (pending : Pending)
  /-- To take a queued word for an input instruction. -/
  | reading (pending : Pending) (dest : Argument)
  /-- To wait for a word. -/
  | waiting (pending : Pending) (dest : Argument) (wait : Wait)
  /-- To store the word an input instruction received. -/
  | storing (pending : Pending) (dest : Argument) (word : Word)
  /-- To look at the run state after no input could be had. -/
  | unanswered (pending : Pending)
  /-- To suspend the machine. -/
  | suspending (pending : Pending)
  /-- To write a word to the output. -/
  | emitting (word : Word)
  /-- To end the run after the halt instruction at `start`. -/
  | ending (start : Nat)
  /-- To halt the machine after a fault. -/
  | halting (failure : Failure) (halting : Halting)
  /-- To look at the run state that the call is to answer. -/
  | returning
  /-- The call has come back. -/
  | answered (answer : Except Failure Drive.Answer)
  /-- The thread broke down. -/
  | collapsed

open Thread (Phase)

namespace Drive

/-- What a call is named when it is refused. -/
def operation : Drive → Operation
  | .run => .run
  | .resume => .resume
  | .step => .step

/-- The first action of a call. Only a call that runs a new machine does not look at the run state first. -/
def first : Drive → Phase
  | .run => .starting
  | .resume | .step => .entering

/-- How a call goes on once the machine is running. A single step is taken without another look. -/
def begun : Drive → Phase
  | .run | .resume => .checking
  | .step => .dispatching

/-- How a call goes on once an instruction has been dealt with. -/
def next (drive : Drive) (step : Step) : Phase :=
  match drive with
  | .run | .resume => .checking
  | .step => .answered (.ok (.stepped step))

end Drive

/-- A machine on the thread of its owner, and the call that was made on it last. -/
structure Thread where
  machine : Machine
  drive : Drive
  phase : Phase

namespace Thread

/-- Whether no call is under way. -/
def Phase.isFree : Phase → Bool
  | .idle | .answered _ => true
  | _ => false

/-- The owner makes a call, unless one is under way. -/
def call (t : Thread) (drive : Drive) : Thread :=
  if t.phase.isFree then { t with drive, phase := drive.first } else t

/-- How a call goes on when an instruction has come to some outcome. -/
def after (drive : Drive) : Outcome Step → Thread
  | ⟨.ok step, m, _⟩ => ⟨m, drive, drive.next step⟩
  | ⟨.error failure, m, _⟩ => ⟨m, drive, .answered (.error failure)⟩

/-- Settles the effect of an evaluated instruction as far as it is private, or turns to the action that it asks for. -/
def settle (m : Machine) (drive : Drive) (p : Pending) : Thread :=
  match p.effect with
  | .advance => ⟨m.counted, drive, drive.next .advanced⟩
  | .jump target => ⟨{ m with ip := target, steps := m.steps + 1 }, drive, drive.next .advanced⟩
  | .rebase relativeBase => ⟨{ m with relativeBase, steps := m.steps + 1 }, drive, drive.next .advanced⟩
  | .output word => ⟨m, drive, .emitting word⟩
  | .halt => ⟨m, drive, .ending p.start⟩
  | .input dest => ⟨m, drive, .reading p dest⟩

/-- Takes a word for an input instruction: a queued one, else the default. Without either a machine waits or goes
    without, according to its mode. -/
def read (m : Machine) (drive : Drive) (p : Pending) (dest : Argument) : Thread :=
  match m.channel.pop? .input with
  | some (word, channel) => ⟨{ m with channel }, drive, .storing p dest word⟩
  | none =>
    match m.config.defaultInput with
    | some word => ⟨m, drive, .storing p dest word⟩
    | none =>
      match m.config.mode with
      | .cooperative => ⟨m, drive, .unanswered p⟩
      | .worker => ⟨m, drive, .waiting p dest .polling⟩

/-- One action of a wait for input. A wait that runs out puts the pointer back to the input instruction. -/
def await (late : Bool) (m : Machine) (drive : Drive) (p : Pending) (dest : Argument) (wait : Wait) : Thread :=
  match wait.step .input late m.channel with
  | (.waiting wait, channel) => ⟨{ m with channel }, drive, .waiting p dest wait⟩
  | (.received word, channel) => ⟨{ m with channel }, drive, .storing p dest word⟩
  | (.closed, channel) => ⟨{ m with channel }, drive, .unanswered p⟩
  | (.expired, channel) => ⟨{ m with channel, ip := p.start }, drive, .answered (.error (channel.timedOut .input))⟩

/-- Turns to halting the machine after a fault, unless the fault brings the thread down. -/
def strike (m : Machine) (drive : Drive) (failure : Failure) : Thread :=
  if failure.isBreakdown then ⟨m, drive, .collapsed⟩ else ⟨m, drive, .halting failure .looking⟩

/-- One action of halting the machine after a fault. The call fails once the machine is at rest. -/
def halt (m : Machine) (drive : Drive) (failure : Failure) (halting : Halting) : Thread :=
  match halting.step m.channel with
  | (.answered _, channel) => ⟨{ m with channel }, drive, .answered (.error failure)⟩
  | (halting, channel) => ⟨{ m with channel }, drive, .halting failure halting⟩

/-- One atomic action of a thread; `late` tells whether a wait has run out. -/
def step (late : Bool) (t : Thread) : Thread :=
  match t with
  | ⟨m, drive, phase⟩ =>
    match phase with
    | .idle => ⟨m, drive, .idle⟩
    | .entering =>
      match m.state with
      | .initialising => ⟨m, drive, .starting⟩
      | .running => ⟨m, drive, drive.begun⟩
      | .awaitingInput => ⟨m, drive, .reviving⟩
      | .ended | .halted => ⟨m, drive, .answered (.error (m.invalidState drive.operation))⟩
    | .starting =>
      match m.start with
      | ⟨.ok (), m, _⟩ => ⟨m, drive, drive.begun⟩
      | ⟨.error failure, m, _⟩ => ⟨m, drive, .answered (.error failure)⟩
    | .reviving =>
      match m.channel.transition? .awaitingInput .running with
      | some channel => ⟨{ m with channel }, drive, drive.begun⟩
      | none => ⟨m, drive, .answered (.error (m.invalidState drive.operation))⟩
    | .checking => ⟨m, drive, if m.state = .running then .dispatching else .returning⟩
    | .dispatching =>
      match m.dispatch with
      | ⟨.ok p, m, _⟩ => ⟨m, drive, .settling p⟩
      | ⟨.error failure, m, _⟩ => strike m drive failure
    | .settling p => settle m drive p
    | .reading p dest => read m drive p dest
    | .waiting p dest wait => await late m drive p dest wait
    | .storing p dest word =>
      match m.receive p.start p.instruction dest word with
      | (.ok (), m) => ⟨m, drive, drive.next .advanced⟩
      | (.error failure, m) => strike m drive failure
    | .unanswered p =>
      if m.state = .running then ⟨m, drive, .suspending p⟩ else ⟨{ m with ip := p.start }, drive, drive.next .stopped⟩
    | .suspending p => after drive (m.suspend p.start #[])
    | .emitting word => ⟨(m.emit word).counted, drive, drive.next .advanced⟩
    | .ending start => after drive (m.finish start #[])
    | .halting failure halting => halt m drive failure halting
    | .returning => ⟨m, drive, .answered (.ok (.rests m.state))⟩
    | .answered answer => ⟨m, drive, .answered answer⟩
    | .collapsed => ⟨m, drive, .collapsed⟩

end Thread

/-! ## Parties left alone -/

/-- A halting call that nobody interferes with halts the machine, unless it is at rest. -/
theorem Halting.alone (c : Channel) :
    ∃ halting : Halting, looking.step c = (halting, c) ∧ halting.step c = (.answered c.halt.1, c.halt.2) := by
  refine ⟨seeing c.state, rfl, ?_⟩
  cases rest : c.state.isTerminal with
  | true =>
    rw [seeing_of_terminal rest, Channel.halt_of_terminal rest]
    rfl
  | false =>
    have moved : c.transition? c.state .halted = some { c with state := .halted } := if_pos rfl
    rw [seeing_of_live rest, Channel.halt_of_live rest]
    simp only [step, moved]

namespace Thread
variable {m m' n : Machine} {drive : Drive} {p : Pending} {dest : Argument} {events : Array Event}

/-- The thread acts some number of times while no other party does, so that each wait on an empty queue runs out. -/
def Alone : Thread → Thread → Prop := Relation.ReflTransGen fun t t' => t' = t.step true

theorem Alone.refl (t : Thread) : Alone t t := Relation.ReflTransGen.refl

theorem Alone.act {t t' : Thread} (later : Alone (t.step true) t') : Alone t t' := Relation.ReflTransGen.head rfl later

theorem Alone.trans {t t' t'' : Thread} (first : Alone t t') (later : Alone t' t'') : Alone t t'' :=
  Relation.ReflTransGen.trans first later

theorem alone_halting (m : Machine) (drive : Drive) (failure : Failure) :
    Alone ⟨m, drive, .halting failure .looking⟩ ⟨m.halted, drive, .answered (.error failure)⟩ := by
  cases rest : m.state.isTerminal with
  | true =>
    have seen : Halting.seeing m.channel.state = .answered false := Halting.seeing_of_terminal rest
    rw [Machine.halted_of_terminal rest]
    refine .act ?_
    simp only [step, halt, Halting.step, seen]
    exact .refl _
  | false =>
    have seen : Halting.seeing m.channel.state = .exchanging m.channel.state := Halting.seeing_of_live rest
    have moved : m.channel.transition? m.channel.state .halted = some { m.channel with state := .halted } := if_pos rfl
    rw [Machine.halted_of_live rest]
    refine .act (.act ?_)
    simp only [step, halt, Halting.step, seen, moved]
    exact .refl _

theorem alone_strike {failure : Failure} (sound : failure.isBreakdown = false) :
    Alone (strike m drive failure) ⟨m.halted, drive, .answered (.error failure)⟩ := by
  unfold strike
  rw [sound]
  exact alone_halting m drive failure

/-- A wait on an empty queue ends when it finds the machine at rest, or else runs out. -/
theorem alone_waiting (empty : m.channel.input = []) :
    Alone ⟨m, drive, .waiting p dest .polling⟩
      (if m.state.isTerminal then ⟨m, drive, .unanswered p⟩
        else ⟨{ m with ip := p.start }, drive, .answered (.error (m.channel.timedOut .input))⟩) := by
  have missing := Channel.pop?_input_eq_none.mpr empty
  refine .act (.act ?_)
  simp only [step, await, Wait.step, missing]
  by_cases atRest : m.state.isTerminal
  · have atRest' : m.channel.state.isTerminal := atRest
    rw [if_pos atRest, if_pos atRest']
    refine .act ?_
    simp only [step, await, Wait.step, Channel.queued, empty, List.isEmpty_nil, if_true]
    exact .refl _
  · have live : ¬ m.channel.state.isTerminal := atRest
    rw [if_neg atRest, if_neg live]
    exact .act (.refl _)

theorem after_suspend (m : Machine) (drive : Drive) (start : Nat) (events : Array Event) :
    after drive (m.suspend start events) = after drive (m.suspend start #[]) := by
  unfold Machine.suspend
  cases m.channel.transition? .running .awaitingInput <;> rfl

theorem after_finish (m : Machine) (drive : Drive) (start : Nat) (events : Array Event) :
    after drive (m.finish start events) = after drive (m.finish start #[]) := by
  unfold Machine.finish
  cases m.channel.transition? .running .ended <;> rfl

theorem alone_unanswered (m : Machine) (drive : Drive) (p : Pending) (events : Array Event) :
    Alone ⟨m, drive, .unanswered p⟩ (after drive (m.suspend p.start events)) := by
  rw [after_suspend]
  refine .act ?_
  rcases m.suspend_cases p.start #[] with ⟨running, more, suspended⟩ | ⟨stopped, suspended⟩
  · simp only [step, if_pos running]
    exact .act (.refl _)
  · simp only [step, if_neg stopped, suspended]
    exact .refl _

theorem alone_storing {word : Word} (effect : p.effect = .input dest) (read : m.readInput = (.ok (some word), m'))
    (sound : ∀ failure, (m.settle p events).result = .error failure → failure.isBreakdown = false) :
    Alone ⟨m', drive, .storing p dest word⟩ (after drive (m.settle p events)) := by
  refine .act ?_
  simp only [step]
  rcases m'.receive_cases p.start p.instruction dest word with ⟨memory, received⟩ | ⟨memory, fault, refused⟩
  · rw [Machine.settle_of_received effect read received]
    simp only [received]
    exact .refl _
  · rw [Machine.settle_of_refused effect read refused] at sound ⊢
    simp only [refused]
    exact alone_strike (sound _ rfl)

/-- An input instruction comes to the same whether its actions are taken one by one or at once. -/
theorem alone_reading (effect : p.effect = .input dest)
    (sound : ∀ failure, (m.settle p events).result = .error failure → failure.isBreakdown = false) :
    Alone ⟨m, drive, .reading p dest⟩ (after drive (m.settle p events)) := by
  refine .act ?_
  simp only [step, read]
  cases popped : m.channel.pop? .input with
  | some front =>
    have took : m.readInput = (.ok (some front.1), { m with channel := front.2 }) := by
      simp only [Machine.readInput, popped]
    exact alone_storing effect took sound
  | none =>
    cases served : m.config.defaultInput with
    | some word =>
      have took : m.readInput = (.ok (some word), m) := by simp only [Machine.readInput, popped, served]
      exact alone_storing effect took sound
    | none =>
      cases mode : m.config.mode with
      | cooperative =>
        have missing : m.readInput = (.ok none, m) := by simp only [Machine.readInput, popped, served, mode]
        rw [Machine.settle_of_missing effect missing]
        exact alone_unanswered m drive p events
      | worker =>
        -- the wait has a deadline, as it would bring the thread down otherwise
        have timed : m.channel.ioTimeout.isTimable := by
          refine Decidable.byContradiction fun untimed => ?_
          have broke : m.readInput = (.error (.beyondCapacity m.channel.program), m) := by
            simp only [Machine.readInput, popped, served, mode, Channel.wait_of_untimed untimed]
          cases sound _ (congrArg Outcome.result (Machine.settle_of_waited effect broke events))
        have denied : m.channel.wait .input = (.error (m.channel.starved .input), m.channel) := by
          rw [Channel.wait_of_none popped, Channel.denial_of_timed timed]
        refine (alone_waiting (Channel.pop?_input_eq_none.mp popped)).trans ?_
        by_cases atRest : m.state.isTerminal
        · have missing : m.readInput = (.ok none, m) := by
            have atRest' : m.channel.state.isTerminal := atRest
            simp only [Machine.readInput, popped, served, mode, denied, Channel.starved, if_pos atRest',
              Channel.closed]
          rw [if_pos atRest, Machine.settle_of_missing effect missing]
          exact alone_unanswered m drive p events
        · have expired : m.readInput = (.error (m.channel.timedOut .input), m) := by
            have live : ¬ m.channel.state.isTerminal := atRest
            simp only [Machine.readInput, popped, served, mode, denied, Channel.starved, if_neg live,
              Channel.timedOut]
          unfold Machine.settle
          simp only [if_neg atRest, effect, expired]
          exact .refl _

/-- So does any instruction. -/
theorem alone_dispatching (sound : ∀ failure, m.cycle.result = .error failure → failure.isBreakdown = false) :
    Alone ⟨m, drive, .dispatching⟩ (after drive m.cycle) := by
  refine .act ?_
  simp only [step]
  rcases dispatched : m.dispatch with ⟨failure | p, d, events⟩
  · rw [Machine.cycle_of_struck dispatched] at sound ⊢
    exact alone_strike (sound _ rfl)
  · rw [Machine.cycle_of_dispatched dispatched] at sound ⊢
    refine .act ?_
    simp only [step]
    cases effect : p.effect with
    | advance | jump | rebase =>
      unfold settle Machine.settle
      rw [effect]
      exact .refl _
    | output word =>
      unfold settle Machine.settle
      rw [effect]
      exact .act (.refl _)
    | halt =>
      unfold settle
      rw [effect, Machine.settle_of_halt effect, after_finish]
      exact .act (.refl _)
    | input dest =>
      have reads : settle d drive p = ⟨d, drive, .reading p dest⟩ := by
        unfold settle
        rw [effect]
      rw [reads]
      exact alone_reading effect sound

/-! ## Whole calls -/

/-- What a call answers and leaves, with some bound on its cycles. -/
def Comes (m : Machine) : Drive → Except Failure Drive.Answer → Machine → Prop
  | .run, answer, n => ∃ result, Returns (m.run ·) result n ∧ answer = result.map .rests
  | .resume, answer, n => ∃ result, Returns (m.resume ·) result n ∧ answer = result.map .rests
  | .step, answer, n => answer = m.step.result.map .stepped ∧ n = m.step.machine

theorem alone_checking {result : Except Failure RunState} (run : Machine.Runs m result n) (drives : drive ≠ .step)
    (sound : ∀ failure, result = .error failure → failure.isBreakdown = false) :
    Alone ⟨m, drive, .checking⟩ ⟨n, drive, .answered (result.map .rests)⟩ := by
  induction run with
  | @rest m stopped =>
    refine .act (.act ?_)
    simp only [step, if_neg stopped]
    exact .refl _
  | @fault m failure running failed =>
    have dispatched : Alone ⟨m, drive, .dispatching⟩ (after drive m.cycle) :=
      alone_dispatching fun failure' failed' => by
        cases failed.symm.trans failed'
        exact sound failure rfl
    refine .act ?_
    simp only [step, if_pos running]
    rcases cycled : m.cycle with ⟨result, m', events⟩
    rw [cycled] at dispatched failed
    obtain rfl : result = .error failure := failed
    exact dispatched
  | @cycle m n stepped result running done later ih =>
    have dispatched : Alone ⟨m, drive, .dispatching⟩ (after drive m.cycle) :=
      alone_dispatching fun failure' failed' => by
        cases done.symm.trans failed'
    have looks : drive.next stepped = .checking := by
      cases drive with
      | run | resume => rfl
      | step => exact absurd rfl drives
    refine .act ?_
    simp only [step, if_pos running]
    refine dispatched.trans ?_
    rcases cycled : m.cycle with ⟨result', m', events⟩
    rw [cycled] at done ih
    obtain rfl : result' = .ok stepped := done
    simp only [after, looks]
    exact ih sound

theorem alone_starting (state : m.state = .initialising) :
    Alone ⟨m, drive, .starting⟩ ⟨m.launched, drive, drive.begun⟩ := by
  have moved : m.channel.transition? .initialising .running = some { m.channel with state := .running } := if_pos state
  refine .act ?_
  unfold Machine.launched
  simp only [step, Machine.start, moved, state]
  exact .refl _

/-- A call sets a machine that is not at rest running. -/
theorem alone_entering (live : m.state.isTerminal = false) :
    Alone ⟨m, drive, .entering⟩ ⟨m.launched, drive, drive.begun⟩ := by
  refine .act ?_
  cases state : m.state with
  | initialising =>
    simp only [step, state]
    exact alone_starting state
  | running =>
    rw [Machine.launched_of_running state]
    simp only [step, state]
    exact .refl _
  | awaitingInput =>
    have moved : m.channel.transition? .awaitingInput .running = some { m.channel with state := .running } :=
      if_pos state
    rw [Machine.launched_of_awaiting state]
    simp only [step, state]
    refine .act ?_
    simp only [step, moved]
    exact .refl _
  | ended | halted =>
    rw [state] at live
    cases live

/-- It is refused by a machine at rest. -/
theorem alone_refused (atRest : m.state.isTerminal) :
    Alone ⟨m, drive, .entering⟩ ⟨m, drive, .answered (.error (m.invalidState drive.operation))⟩ := by
  refine .act ?_
  cases state : m.state with
  | ended | halted =>
    simp only [step, state]
    exact .refl _
  | initialising | running | awaitingInput =>
    rw [state] at atRest
    cases atRest

theorem alone_run {result : Except Failure RunState} (returned : Returns (m.run ·) result n)
    (sound : ∀ failure, result = .error failure → failure.isBreakdown = false) :
    Alone ⟨m, .run, .starting⟩ ⟨n, .run, .answered (result.map .rests)⟩ := by
  by_cases state : m.state = .initialising
  · have resumed : Returns (m.resume ·) result n := by
      obtain ⟨fuel, events, ran⟩ := returned
      refine ⟨fuel, events, ?_⟩
      unfold Machine.resume
      rw [state]
      exact ran
    have live : m.state.isTerminal = false := by
      rw [state]
      rfl
    have run := (Machine.returns_resume_iff live).mp resumed
    exact (alone_starting state).trans (alone_checking run nofun sound)
  · have stays : m.channel.transition? .initialising .running = none := if_neg state
    obtain ⟨fuel, events, ran⟩ := returned
    unfold Machine.run Machine.start at ran
    simp only [stays] at ran
    cases ran
    refine .act ?_
    simp only [step, Machine.start, stays]
    exact .refl _

theorem alone_resume {result : Except Failure RunState} (returned : Returns (m.resume ·) result n)
    (sound : ∀ failure, result = .error failure → failure.isBreakdown = false) :
    Alone ⟨m, .resume, .entering⟩ ⟨n, .resume, .answered (result.map .rests)⟩ := by
  cases rest : m.state.isTerminal with
  | true =>
    obtain ⟨fuel, events, resumed⟩ := returned
    cases (Machine.resume_of_terminal rest fuel).symm.trans resumed
    exact alone_refused rest
  | false =>
    have run := (Machine.returns_resume_iff rest).mp returned
    exact (alone_entering rest).trans (alone_checking run nofun sound)

theorem alone_step (sound : ∀ failure, m.step.result = .error failure → failure.isBreakdown = false) :
    Alone ⟨m, .step, .entering⟩ ⟨m.step.machine, .step, .answered (m.step.result.map .stepped)⟩ := by
  cases rest : m.state.isTerminal with
  | true =>
    rw [Machine.step_of_terminal rest]
    exact alone_refused rest
  | false =>
    obtain ⟨result, machine⟩ := Machine.step_of_live rest
    rw [result] at sound ⊢
    rw [machine]
    refine (alone_entering rest).trans ?_
    have dispatched : Alone ⟨m.launched, .step, .dispatching⟩ (after .step m.launched.cycle) := alone_dispatching sound
    rcases cycled : m.launched.cycle with ⟨_ | stepped, left, events⟩
    · rw [cycled] at dispatched
      exact dispatched
    · rw [cycled] at dispatched
      exact dispatched

/-- A thread that nobody interferes with answers and leaves what the call on its machine does, unless that brings the
    thread down. -/
theorem alone {t : Thread} (free : t.phase.isFree) {answer : Except Failure Drive.Answer} (drive : Drive)
    (comes : Comes t.machine drive answer n)
    (sound : ∀ failure, answer = .error failure → failure.isBreakdown = false) :
    Alone (t.call drive) ⟨n, drive, .answered answer⟩ := by
  have called : t.call drive = ⟨t.machine, drive, drive.first⟩ := if_pos free
  have kept : ∀ {α : Type} (result : Except Failure α) (f : α → Drive.Answer), answer = result.map f →
      ∀ failure, result = .error failure → failure.isBreakdown = false := by
    rintro α result f rfl failure rfl
    exact sound failure rfl
  rw [called]
  cases drive with
  | run =>
    obtain ⟨result, returned, rfl⟩ := comes
    exact alone_run returned (kept result _ rfl)
  | resume =>
    obtain ⟨result, returned, rfl⟩ := comes
    exact alone_resume returned (kept result _ rfl)
  | step =>
    obtain ⟨rfl, rfl⟩ := comes
    exact alone_step (kept _ _ rfl)

end Thread

/-! ## Workers -/

/-- Where a thread stands on which a worker calls `resume` again and again. -/
def Worker.Phase.Stands : Worker.Phase → Thread.Phase → Prop
  | .resuming, phase => phase = .entering
  | .starting, phase => phase = .starting
  | .reviving, phase => phase = .reviving
  | .checking, phase => phase = .checking
  | .dispatching, phase => phase = .dispatching
  | .reading p dest, phase => phase = .reading p dest
  | .waiting p dest wait, phase => phase = .waiting p dest wait
  | .storing p dest word, phase => phase = .storing p dest word
  | .unanswered p, phase => phase = .unanswered p
  | .suspending p, phase => phase = .suspending p
  | .emitting word, phase => phase = .emitting word
  | .ending start, phase => phase = .ending start
  | .halting failure, phase => phase = .halting failure .looking
  | .recovering failure, phase => phase = .answered (.error failure)
  | .returning, phase => phase = .returning
  | .finished, phase | .failed _, phase => phase.isFree
  | .collapsed, phase => phase = .collapsed

/-- The thread of a worker. -/
structure Worker.On (w : Worker) (t : Thread) : Prop where
  machine : t.machine = w.machine
  drive : t.drive = .resume
  stands : w.phase.Stands t.phase

/-- The thread acts, and its owner calls `resume`, some number of times. -/
def Thread.Resumes : Thread → Thread → Prop :=
  Relation.ReflTransGen fun t t' => (∃ late, t' = t.step late) ∨ t' = t.call .resume

theorem Thread.Alone.resumes {t t' : Thread} (alone : Alone t t') : t.Resumes t' := by
  induction alone with
  | refl => exact .refl
  | tail _ acted ih => exact ih.tail (.inl ⟨true, acted⟩)

namespace Worker
variable {m : Machine} {t : Thread} {p : Pending} {events : Array Event}

theorem settle_on (m : Machine) (p : Pending) (events : Array Event) :
    (settle m p events).On (Thread.settle m .resume p) := by
  unfold settle Thread.settle
  cases p.effect <;> exact ⟨rfl, rfl, rfl⟩

theorem strike_on (m : Machine) (failure : Failure) (events : Array Event) :
    (strike m failure events).On (Thread.strike m .resume failure) := by
  unfold strike Thread.strike
  split <;> exact ⟨rfl, rfl, rfl⟩

theorem read_on (mode : m.config.mode = .worker) (p : Pending) (dest : Argument) (events : Array Event) :
    (read m p dest events).On (Thread.read m .resume p dest) := by
  unfold read Thread.read
  cases m.channel.pop? .input with
  | some front => exact ⟨rfl, rfl, rfl⟩
  | none =>
    cases m.config.defaultInput with
    | some word => exact ⟨rfl, rfl, rfl⟩
    | none =>
      simp only [mode]
      exact ⟨rfl, rfl, rfl⟩

theorem await_on (late : Bool) (m : Machine) (p : Pending) (dest : Argument) (wait : Wait) (events : Array Event) :
    (await late m p dest wait events).On (Thread.await late m .resume p dest wait) := by
  unfold await Thread.await
  rcases wait.step .input late m.channel with ⟨wait' | word | _ | _, channel⟩ <;> exact ⟨rfl, rfl, rfl⟩

/-- Each action of a worker is some actions of its thread in a row. -/
theorem step_on {w : Worker} (on : w.On t) (mode : w.machine.config.mode = .worker) (late : Bool) :
    ∃ t', t.Resumes t' ∧ (w.step late).On t' := by
  obtain ⟨m, drive, phase⟩ := t
  obtain ⟨m', phase', events⟩ := w
  obtain ⟨rfl, rfl, stands⟩ := on
  have acts : Thread.Resumes ⟨m, .resume, phase⟩ (Thread.step late ⟨m, .resume, phase⟩) := .single (.inl ⟨late, rfl⟩)
  cases phase' with
  | resuming =>
    obtain rfl : phase = .entering := stands
    refine ⟨_, acts, ?_⟩
    simp only [step, Thread.step]
    cases m.state <;> exact ⟨rfl, rfl, rfl⟩
  | starting =>
    obtain rfl : phase = .starting := stands
    refine ⟨_, acts, ?_⟩
    simp only [step, Thread.step]
    rcases m.start with ⟨_ | _, left, more⟩ <;> exact ⟨rfl, rfl, rfl⟩
  | reviving =>
    obtain rfl : phase = .reviving := stands
    refine ⟨_, acts, ?_⟩
    simp only [step, Thread.step]
    cases m.channel.transition? .awaitingInput .running <;> exact ⟨rfl, rfl, rfl⟩
  | checking =>
    obtain rfl : phase = .checking := stands
    refine ⟨_, acts, ?_⟩
    simp only [step, Thread.step]
    split <;> exact ⟨rfl, rfl, rfl⟩
  | dispatching =>
    obtain rfl : phase = .dispatching := stands
    simp only [step]
    rcases dispatched : m.dispatch with ⟨failure | p, left, more⟩ <;> simp only [Thread.step, dispatched] at acts
    · exact ⟨_, acts, strike_on left failure _⟩
    · exact ⟨_, acts.tail (.inl ⟨late, rfl⟩), settle_on left p _⟩
  | reading p dest =>
    obtain rfl : phase = .reading p dest := stands
    exact ⟨_, acts, read_on mode p dest events⟩
  | waiting p dest wait =>
    obtain rfl : phase = .waiting p dest wait := stands
    exact ⟨_, acts, await_on late m p dest wait events⟩
  | storing p dest word =>
    obtain rfl : phase = .storing p dest word := stands
    refine ⟨_, acts, ?_⟩
    simp only [step, Thread.step]
    rcases m.receive p.start p.instruction dest word with ⟨failure | _, left⟩
    · exact strike_on left failure events
    · exact ⟨rfl, rfl, rfl⟩
  | unanswered p =>
    obtain rfl : phase = .unanswered p := stands
    refine ⟨_, acts, ?_⟩
    simp only [step, Thread.step]
    split <;> exact ⟨rfl, rfl, rfl⟩
  | suspending p =>
    obtain rfl : phase = .suspending p := stands
    refine ⟨_, acts, ?_⟩
    simp only [step, Thread.step]
    rcases m.suspend_cases p.start #[] with ⟨-, more, suspended⟩ | ⟨-, suspended⟩ <;>
    · rw [suspended]
      exact ⟨rfl, rfl, rfl⟩
  | emitting word =>
    obtain rfl : phase = .emitting word := stands
    exact ⟨_, acts, rfl, rfl, rfl⟩
  | ending start =>
    obtain rfl : phase = .ending start := stands
    refine ⟨_, acts, ?_⟩
    simp only [step, Thread.step]
    rcases m.finish_cases start #[] with ⟨-, more, finished⟩ | ⟨-, finished⟩ <;>
    · rw [finished]
      exact ⟨rfl, rfl, rfl⟩
  | halting failure =>
    obtain rfl : phase = .halting failure .looking := stands
    exact ⟨_, (Thread.alone_halting m .resume failure).resumes, rfl, rfl, rfl⟩
  | recovering failure =>
    obtain rfl : phase = .answered (.error failure) := stands
    simp only [step]
    by_cases atRest : m.state.isTerminal
    · rw [if_pos atRest]
      exact ⟨_, .refl, rfl, rfl, rfl⟩
    · by_cases idle : failure.isIdle
      · rw [if_neg atRest, if_pos idle]
        exact ⟨_, .single (.inr rfl), rfl, rfl, rfl⟩
      · rw [if_neg atRest, if_neg idle]
        exact ⟨_, .refl, rfl, rfl, rfl⟩
  | returning =>
    obtain rfl : phase = .returning := stands
    exact ⟨_, acts, rfl, rfl, rfl⟩
  | finished | failed failure | collapsed => exact ⟨_, .refl, rfl, rfl, stands⟩

end Worker

end IntegerMachine
