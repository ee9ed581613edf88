import IntegerMachine.Proofs.Interleaving
import IntegerMachine.Proofs.Strand

/-!
# What a worker hands back

The loop of a worker comes to its end in two ways only (`World.hands_back`): with a machine at rest, or with a fault
that has halted it. A wait that runs out is begun again, and a call that fails because another party has halted the
machine meanwhile hands the machine back.

What the worker has seen of the run state is still so when it acts on it, or the machine has been halted since
(`Knows`). The actions of others keep this (`Knows.halted`), and so does each action of the worker
(`Informed.step`).
-/
namespace IntegerMachine
open Worker (Phase)

/-- What the loop of a worker has returned, if it has come to its end. -/
def Worker.returned? (w : Worker) : Option (Except Failure Machine) :=
  match w.phase with
  | .finished => some (.ok w.machine)
  | .failed failure => some (.error failure)
  | _ => none

/-- Whoever joins a worker whose loop has come to its end is handed what it has returned. -/
theorem Worker.join_of_returned {w : Worker} {result : Except Failure Machine} (returned : w.returned? = some result)
    (budget : Nat) : w.join (budget + 1) = some (result, w.events) := by
  unfold returned? at returned
  unfold join
  split at returned
  · next phase =>
    cases returned
    simp only [phase]
  · next failure phase =>
    cases returned
    simp only [phase]
  · cases returned

/-- A fault struck an instruction of the program. -/
def Failure.IsFault (program : String) (failure : Failure) : Prop :=
  ∃ ip text fault, failure = .faulted program ip text fault

/-- What a worker knows of the run state in a phase. Only the worker ends the run, and others can only halt the
    machine. -/
def Knows : Phase → RunState → Prop
  | .resuming, state => state ≠ .ended
  | .starting, state => state = .initialising ∨ state = .halted
  | .reviving, state => state = .awaitingInput ∨ state = .halted
  | .checking, state => state = .running ∨ state.isTerminal
  | .waiting _ _ .checkingQueue, state | .unanswered _, state => state = .halted
  | .dispatching, state | .reading .., state | .waiting .., state | .storing .., state | .emitting _, state
  | .ending _, state | .halting _, state => state = .running ∨ state = .halted
  | .recovering failure, state => state = .running ∧ failure.isIdle ∨ state = .halted
  | .suspending _, _ => False
  | .returning, state | .finished, state => state.isTerminal
  | .failed _, state => state = .halted
  | .collapsed, _ => True

/-- A worker gives up for a fault only. -/
def Blames (program : String) : Phase → Prop
  | .halting failure | .failed failure => failure.IsFault program
  | _ => True

/-- The invariant of a worker whose machine was not at rest at first. -/
structure Informed (program : String) (w : Worker) : Prop where
  name : w.machine.name = program
  knows : Knows w.phase w.machine.state
  blames : Blames program w.phase

/-! ## The other parties -/

theorem Knows.halted {phase : Phase} {state : RunState} (knows : Knows phase state) : Knows phase .halted := by
  unfold Knows at knows ⊢
  split at knows <;> simp_all [RunState.isTerminal]

/-- A worker that has carried an instruction out looks at the run state again. -/
theorem Knows.checking {state : RunState} (state_cases : state = .running ∨ state = .halted) :
    Knows .checking state := by
  rcases state_cases with running | halted
  · exact .inl running
  · exact .inr (congrArg RunState.isTerminal halted)

namespace Informed
variable {program : String} {w : Worker}

theorem withChannel (informed : Informed program w) {channel : Channel} (state : channel.state = w.machine.state) :
    Informed program (w.withChannel channel) := by
  refine ⟨informed.name, ?_, informed.blames⟩
  rw [show (w.withChannel channel).machine.state = channel.state from rfl, state]
  exact informed.knows

theorem halted (informed : Informed program w) : Informed program w.halt.2 := by
  rcases w.halt_cases with ⟨-, stays⟩ | ⟨-, moves⟩
  · rw [stays]
    exact informed
  · rw [moves]
    exact ⟨informed.name, informed.knows.halted, informed.blames⟩

/-! ## The worker -/

variable {m : Machine} {p : Pending} {events : Array Event}

theorem settle (name : m.name = program) (state : m.state = .running ∨ m.state = .halted) :
    Informed program (Worker.settle m p events) := by
  unfold Worker.settle
  cases p.effect with
  | advance | jump | rebase => exact ⟨name, .checking state, trivial⟩
  | output | halt | input => exact ⟨name, state, trivial⟩

theorem strike {failure : Failure} (name : m.name = program) (state : m.state = .running ∨ m.state = .halted)
    (fault : failure.IsFault program) : Informed program (Worker.strike m failure events) := by
  unfold Worker.strike
  by_cases breakdown : failure.isBreakdown
  · rw [if_pos breakdown]
    exact ⟨name, trivial, trivial⟩
  · rw [if_neg breakdown]
    exact ⟨name, state, fault⟩

theorem dispatching (name : m.name = program) (state : m.state = .running ∨ m.state = .halted) (late : Bool) :
    Informed program (Worker.step late ⟨m, .dispatching, events⟩) := by
  unfold Worker.step
  rcases m.dispatch_cases with
    ⟨i, effect, memory, more, -, -, dispatched⟩ | ⟨text, fault, memory, ip, more, struck⟩
  · simp only [dispatched]
    exact settle name state
  · simp only [struck]
    exact strike name state ⟨m.ip, text, fault, by rw [name]⟩

theorem popped {word : Word} {channel : Channel} {dest : Argument} (name : m.name = program)
    (state : m.state = .running ∨ m.state = .halted) (popped : m.channel.pop? .input = some (word, channel)) :
    Informed program ⟨{ m with channel }, .storing p dest word, events⟩ := by
  obtain ⟨-, left⟩ := Channel.pop?_input_eq_some popped
  have same : channel.state = m.state := by rw [left]; rfl
  refine ⟨name, ?_, trivial⟩
  change channel.state = .running ∨ channel.state = .halted
  rw [same]
  exact state

theorem reading {dest : Argument} (name : m.name = program) (state : m.state = .running ∨ m.state = .halted)
    (late : Bool) : Informed program (Worker.step late ⟨m, .reading p dest, events⟩) := by
  simp only [Worker.step, Worker.read]
  cases front : m.channel.pop? .input with
  | some front => exact popped name state front
  | none =>
    cases m.config.defaultInput with
    | some word => exact ⟨name, state, trivial⟩
    | none => exact ⟨name, state, trivial⟩

theorem waiting {dest : Argument} {wait : Wait} (name : m.name = program) (knows : Knows (.waiting p dest wait) m.state)
    (late : Bool) : Informed program (Worker.step late ⟨m, .waiting p dest wait, events⟩) := by
  simp only [Worker.step, Worker.await]
  cases wait with
  | polling =>
    simp only [Wait.step]
    cases front : m.channel.pop? .input with
    | some front => exact popped name knows front
    | none => exact ⟨name, knows, trivial⟩
  | checkingState =>
    simp only [Wait.step]
    by_cases atRest : m.channel.state.isTerminal
    · rw [if_pos atRest]
      refine ⟨name, knows.resolve_left ?_, trivial⟩
      exact RunState.stopped_of_terminal atRest
    · rw [if_neg atRest]
      exact ⟨name, knows, trivial⟩
  | checkingQueue =>
    have halted : m.state = .halted := knows
    simp only [Wait.step]
    by_cases empty : (m.channel.queued .input).isEmpty
    · rw [if_pos empty]
      exact ⟨name, halted, trivial⟩
    · rw [if_neg empty]
      exact ⟨name, .inr halted, trivial⟩
  | checkingClock =>
    simp only [Wait.step]
    by_cases expired : late = true
    · rw [if_pos expired]
      exact ⟨name, knows.imp_left fun running => ⟨running, rfl⟩, trivial⟩
    · rw [if_neg expired]
      exact ⟨name, knows, trivial⟩

/-- Every action of the worker keeps the invariant. -/
theorem step (informed : Informed program w) (late : Bool) : Informed program (w.step late) := by
  obtain ⟨m, phase, events⟩ := w
  obtain ⟨name, knows, blames⟩ := informed
  cases phase with
  | resuming =>
    simp only [Worker.step]
    cases state : m.state with
    | initialising => exact ⟨name, .inl state, trivial⟩
    | running => exact ⟨name, .inl state, trivial⟩
    | awaitingInput => exact ⟨name, .inl state, trivial⟩
    | ended => exact absurd state knows
    | halted => exact ⟨name, .inr state, trivial⟩
  | starting =>
    unfold Worker.step Machine.start
    rcases m.channel.transition?_cases .initialising .running with ⟨-, moved⟩ | ⟨other, stays⟩
    · simp only [moved]
      exact ⟨name, .inl rfl, trivial⟩
    · simp only [stays]
      exact ⟨name, .inr (knows.resolve_left other), trivial⟩
  | reviving =>
    unfold Worker.step
    rcases m.channel.transition?_cases .awaitingInput .running with ⟨-, moved⟩ | ⟨other, stays⟩
    · simp only [moved]
      exact ⟨name, .inl rfl, trivial⟩
    · simp only [stays]
      exact ⟨name, .inr (knows.resolve_left other), trivial⟩
  | checking =>
    simp only [Worker.step]
    by_cases running : m.state = .running
    · rw [if_pos running]
      exact ⟨name, .inl running, trivial⟩
    · rw [if_neg running]
      exact ⟨name, knows.resolve_left running, trivial⟩
  | dispatching => exact dispatching name knows late
  | reading p dest => exact reading name knows late
  | waiting p dest wait => exact waiting name knows late
  | storing p dest word =>
    simp only [Worker.step]
    rcases m.receive_cases p.start p.instruction dest word with ⟨memory, received⟩ | ⟨memory, fault, refused⟩
    · simp only [received]
      exact ⟨name, .checking knows, trivial⟩
    · simp only [refused]
      exact strike name knows ⟨p.start, p.instruction.text, fault, by rw [name]⟩
  | unanswered p =>
    have halted : m.state = .halted := knows
    have stopped : m.state ≠ .running := by simp [halted]
    simp only [Worker.step, if_neg stopped]
    exact ⟨name, .checking (.inr halted), trivial⟩
  | suspending p => exact knows.elim
  | emitting word => exact ⟨name, .checking knows, trivial⟩
  | ending start =>
    simp only [Worker.step]
    rcases m.finish_cases start #[] with ⟨-, more, finished⟩ | ⟨stopped, finished⟩
    · simp only [finished]
      exact ⟨name, .inr rfl, trivial⟩
    · simp only [finished]
      exact ⟨name, .checking (.inr (knows.resolve_left stopped)), trivial⟩
  | halting failure =>
    simp only [Worker.step]
    rcases knows with running | halted
    · rw [Machine.halted_of_live (by rw [running]; rfl)]
      exact ⟨name, rfl, blames⟩
    · rw [Machine.halted_of_terminal (by rw [halted]; rfl)]
      exact ⟨name, halted, blames⟩
  | recovering failure =>
    simp only [Worker.step]
    rcases knows with ⟨running, idle⟩ | halted
    · have live : ¬ m.state.isTerminal = true := by simp [running, RunState.isTerminal]
      rw [if_neg live, if_pos idle]
      have unended : m.state ≠ .ended := by simp [running]
      exact ⟨name, unended, trivial⟩
    · have atRest : m.state.isTerminal = true := by
        rw [halted]
        rfl
      rw [if_pos atRest]
      exact ⟨name, atRest, trivial⟩
  | returning => exact ⟨name, knows, trivial⟩
  | finished | collapsed => exact ⟨name, knows, trivial⟩
  | failed failure => exact ⟨name, knows, blames⟩

theorem spawn {w : Worker} {m : Machine} (spawned : Worker.spawn m = .ok w) : Informed m.name w := by
  unfold Worker.spawn at spawned
  split at spawned
  · cases spawned
  · next live =>
    split at spawned
    · cases spawned
    · cases spawned
      refine ⟨rfl, ?_, trivial⟩
      change m.state ≠ .ended
      intro ended
      rw [ended] at live
      exact live rfl

end Informed

/-! ## The end of the loop -/

namespace World
variable {program : String} {world : World}

theorem act_informed (informed : Informed program world.worker) (action : Action) :
    Informed program (world.act action).worker := by
  cases action with
  | work late => exact informed.step late
  | feed word =>
    unfold act Channel.feed Channel.feedAll
    by_cases refused : (world.worker.channel.state.isTerminal && !([word] : List Word).isEmpty) = true
    · simp only [if_pos refused]
      exact informed
    · simp only [if_neg refused]
      exact informed.withChannel rfl
  | send word => exact informed.withChannel rfl
  | take =>
    unfold act Channel.tryConsume Channel.pop?
    cases world.worker.channel.queued .output with
    | nil => exact informed
    | cons word rest => exact informed.withChannel rfl
  | halt => exact informed.halted

theorem run_informed (informed : Informed program world.worker) (actions : List Action) :
    Informed program (world.run actions).worker := by
  induction actions generalizing world with
  | nil => exact informed
  | cons action actions ih => exact ih (act_informed informed action)

/-- Whatever others do, and however many waits run out, a worker returns a machine at rest, or a fault that has
    halted the machine. This is what it hands to whoever joins it. -/
theorem hands_back {m : Machine} {w : Worker} (spawned : Worker.spawn m = .ok w) (actions : List Action) {world : World}
    (acted : World.run ⟨w, [], []⟩ actions = world) {result : Except Failure Machine}
    (returned : world.worker.returned? = some result) :
    ((∃ left, result = .ok left ∧ (left.state = .ended ∨ left.state = .halted)) ∨
      ∃ failure, result = .error failure ∧ failure.IsFault m.name ∧ world.worker.machine.state = .halted) ∧
    ∀ budget, world.worker.join (budget + 1) = some (result, world.worker.events) := by
  have informed : Informed m.name world.worker := acted ▸ run_informed (Informed.spawn spawned) actions
  obtain ⟨-, knows, blames⟩ := informed
  refine ⟨?_, Worker.join_of_returned returned⟩
  unfold Worker.returned? at returned
  split at returned
  · next phase =>
    cases returned
    rw [phase] at knows
    have atRest : world.worker.machine.state.isTerminal := knows
    refine .inl ⟨_, rfl, ?_⟩
    cases state : world.worker.machine.state with
    | ended => exact .inl rfl
    | halted => exact .inr rfl
    | initialising | running | awaitingInput =>
      rw [state] at atRest
      cases atRest
  · next failure phase =>
    cases returned
    rw [phase] at knows blames
    exact .inr ⟨failure, rfl, blames, knows⟩
  · cases returned

/-- A worker that is halted between a wait that ran out and the next call hands its machine back. One that jumps out
    of memory returns the fault, though it is halted before it can halt the machine itself. -/
theorem hands_back_idle :
    let idle := List.replicate 7 (.work false) ++ [.work true, .work false, .halt, .work false, .work false]
    let jumping := List.replicate 4 (.work false) ++ [.halt, .work false]
    (∃ w world left, Worker.spawn (.ofProgram [3, 0, 99] {}) = .ok w ∧ World.run ⟨w, [], []⟩ idle = world ∧
      world.worker.returned? = some (.ok left) ∧ (left.state = .ended ∨ left.state = .halted)) ∧
    ∃ w world failure, Worker.spawn (.ofProgram [1105, 1, -2] {}) = .ok w ∧ World.run ⟨w, [], []⟩ jumping = world ∧
      world.worker.returned? = some (.error failure) ∧ failure.IsFault "program" ∧
      world.worker.machine.state = .halted := by
  intro idle jumping
  have idled := hands_back (m := .ofProgram [3, 0, 99] {}) rfl idle rfl rfl
  have jumped := hands_back (m := .ofProgram [1105, 1, -2] {}) rfl jumping rfl rfl
  obtain ⟨⟨left, same, state⟩ | ⟨_, impossible, -⟩, -⟩ := idled
  · obtain ⟨⟨_, impossible, -⟩ | ⟨failure, same', fault, halted⟩, -⟩ := jumped
    · cases impossible
    · exact ⟨⟨_, _, left, rfl, rfl, congrArg some same, state⟩,
        _, _, failure, rfl, rfl, congrArg some same', fault, halted⟩
  · cases impossible

end World

end IntegerMachine
