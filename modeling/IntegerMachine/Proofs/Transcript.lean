import IntegerMachine.Proofs.Execution

/-!
# Transcripts

The words that a machine takes off its input and those that it writes, told from the instructions that it carries
out: of one cycle (`reads`, `writes`), and of all cycles of a call that drives it (`took`, `wrote`). The queues of the
machine are accounted for by them (`resume_exchanges`): whatever has been taken stood in front of what is left of the
input, and whatever has been written stands behind what was there.
-/
namespace IntegerMachine

theorem Instruction.evaluate_output (source : Argument) (relativeBase : Word) (mem : Memory) :
    (Instruction.output source).evaluate relativeBase mem =
      match Memory.load source relativeBase mem with
      | .ok word mem => .ok (.output word) mem
      | .error fault mem => .error fault mem := by
  change EStateM.bind (Memory.load source relativeBase) _ mem = _
  unfold EStateM.bind
  cases Memory.load source relativeBase mem with
  | ok word mem => rfl
  | error fault mem => rfl

theorem Instruction.evaluate_adjust (offset : Argument) (relativeBase : Word) (mem : Memory) :
    (Instruction.adjustRelativeBase offset).evaluate relativeBase mem =
      match Memory.load offset relativeBase mem with
      | .ok word mem => .ok (.rebase (relativeBase + word)) mem
      | .error fault mem => .error fault mem := by
  change EStateM.bind (Memory.load offset relativeBase) _ mem = _
  unfold EStateM.bind
  cases Memory.load offset relativeBase mem with
  | ok word mem => rfl
  | error fault mem => rfl

namespace Machine

/-- The words that the next cycle takes off the input: an input instruction takes the first one, if there is one. -/
def reads (m : Machine) : List Word :=
  match m.fetch with
  | .ok (.input _) => m.channel.input.take 1
  | _ => []

/-- The words that the next cycle writes: an output instruction writes the value of its argument. -/
def writes (m : Machine) : List Word :=
  match m.fetch with
  | .ok (.output source) =>
    match Memory.load source m.relativeBase m.memory with
    | .ok word _ => [word]
    | .error .. => []
  | _ => []

/-- The machines that an execution finds, each before one of its cycles. -/
def cycled : Nat → Machine → List Machine
  | 0, _ => []
  | fuel + 1, m =>
    if m.state = .running then
      m :: match m.cycle.result with
        | .ok _ => cycled fuel m.cycle.machine
        | .error _ => []
    else []

/-- The words that a machine takes off its input when it is resumed. -/
def took (fuel : Nat) (m : Machine) : List Word := (m.launched.cycled fuel).flatMap reads

/-- The words that a machine writes when it is resumed. -/
def wrote (fuel : Nat) (m : Machine) : List Word := (m.launched.cycled fuel).flatMap writes

/-- The machine `m` has become `n` by taking and writing some words. -/
structure Exchanges (m : Machine) (taken written : List Word) (n : Machine) : Prop where
  input : m.channel.input = taken ++ n.channel.input
  output : n.output = m.output ++ written

namespace Exchanges
variable {m k n : Machine} {taken taken' written written' : List Word}

theorem refl (m : Machine) : Exchanges m [] [] m := ⟨rfl, (List.append_nil _).symm⟩

/-- Whatever leaves the queues alone may follow. -/
theorem still (exchanges : Exchanges m taken written k) (input : n.channel.input = k.channel.input)
    (output : n.output = k.output) : Exchanges m taken written n where
  input := by rw [input, exchanges.input]
  output := by rw [output, exchanges.output]

theorem trans (first : Exchanges m taken written k) (second : Exchanges k taken' written' n) :
    Exchanges m (taken ++ taken') (written ++ written') n where
  input := by rw [first.input, second.input, List.append_assoc]
  output := by rw [second.output, first.output, List.append_assoc]

end Exchanges

theorem halted_output (m : Machine) : m.halted.output = m.output := by
  cases rest : m.state.isTerminal with
  | true => rw [halted_of_terminal rest]
  | false =>
    rw [halted_of_live rest]
    rfl

theorem Exchanges.halted {m n : Machine} {taken written : List Word} (exchanges : Exchanges m taken written n) :
    Exchanges m taken written n.halted :=
  exchanges.still n.halted_input n.halted_output

/-! ## One cycle -/

theorem readInput_left (m : Machine) : m.readInput.2 = m.withInput (m.channel.input.drop 1) := by
  rcases front : m.channel.input with _ | ⟨word, rest⟩
  · have whole : m.withInput [] = m := by
      rw [← front]
      rfl
    rw [List.drop_nil, whole]
    have missing := Channel.pop?_input_eq_none.mpr front
    simp only [readInput, missing, Channel.wait_of_none missing]
    cases m.config.defaultInput with
    | some word => rfl
    | none =>
      cases m.config.mode with
      | cooperative => rfl
      | worker => cases m.channel.denial .input <;> rfl
  · rw [readInput_of_queued front]
    rfl

section
variable {m : Machine} {p : Pending}

theorem settle_exchanges_halt (effect : p.effect = .halt) (events : Array Event) :
    Exchanges m [] [] (m.settle p events).machine := by
  rw [settle_of_halt effect]
  rcases m.finish_cases p.start events with ⟨-, more, finished⟩ | ⟨-, finished⟩
  · rw [finished]
    exact (Exchanges.refl m).still rfl rfl
  · rw [finished]
    exact (Exchanges.refl m).still rfl rfl

/-- An input instruction takes the first word, even if that cannot be stored. -/
theorem settle_exchanges_input {dest : Argument} (effect : p.effect = .input dest) (events : Array Event) :
    Exchanges m (m.channel.input.take 1) [] (m.settle p events).machine := by
  have left := m.readInput_left
  rcases read : m.readInput with ⟨result, m'⟩
  obtain rfl : m' = m.withInput (m.channel.input.drop 1) := by
    rw [← left, read]
  have taken : Exchanges m (m.channel.input.take 1) [] (m.withInput (m.channel.input.drop 1)) :=
    ⟨(List.take_append_drop 1 _).symm, (List.append_nil _).symm⟩
  rcases result with failure | _ | word
  · unfold settle
    simp only [effect, read]
    exact taken.still rfl rfl
  · rw [settle_of_missing effect read]
    rcases suspend_cases (m.withInput _) p.start events with ⟨-, more, suspended⟩ | ⟨-, suspended⟩
    · rw [suspended]
      exact taken.still rfl rfl
    · rw [suspended]
      exact taken.still rfl rfl
  · rcases receive_cases (m.withInput _) p.start p.instruction dest word with
      ⟨memory, received⟩ | ⟨memory, fault, refused⟩
    · rw [settle_of_received effect read received]
      exact taken.still rfl rfl
    · rw [settle_of_refused effect read refused]
      exact (taken.still (n := { m.withInput _ with memory }) rfl rfl).halted

/-- Instructions other than those for input and output touch no queue. -/
theorem settle_exchanges_silent (silent : p.effect = .advance ∨ (∃ target, p.effect = .jump target) ∨
    ∃ relativeBase, p.effect = .rebase relativeBase) (events : Array Event) :
    Exchanges m [] [] (m.settle p events).machine := by
  unfold settle
  rcases silent with effect | ⟨target, effect⟩ | ⟨relativeBase, effect⟩
  · rw [effect]
    exact (Exchanges.refl m).still rfl rfl
  · rw [effect]
    exact (Exchanges.refl m).still rfl rfl
  · rw [effect]
    exact (Exchanges.refl m).still rfl rfl

theorem settle_exchanges_output {word : Word} (effect : p.effect = .output word) (events : Array Event) :
    Exchanges m [] [word] (m.settle p events).machine := by
  unfold settle
  rw [effect]
  exact ⟨rfl, by simp [output, counted, emit, Channel.emit]⟩

end

section
variable {m : Machine} {i : Instruction}

/-- A fault that strikes while an instruction is evaluated leaves the queues alone. -/
theorem cycle_exchanges_faulted {fault : Fault} {memory : Memory} (fetched : m.fetch = .ok i)
    (faulted : i.evaluate m.relativeBase m.memory = .error fault memory) : Exchanges m [] [] m.cycle.machine := by
  rw [cycle_of_struck (dispatch_of_faulted fetched faulted)]
  exact ((Exchanges.refl m).still (n := { m with memory, ip := m.ip + i.size }) rfl rfl).halted

/-- What settling an instruction does to the queues, the cycle does. -/
theorem cycle_exchanges_evaluated {effect : Effect} {memory : Memory} {taken written : List Word}
    (fetched : m.fetch = .ok i) (evaluated : i.evaluate m.relativeBase m.memory = .ok effect memory)
    (settled : ∀ k events, k.channel = m.channel →
      Exchanges k taken written (k.settle ⟨m.ip, i, effect⟩ events).machine) :
    Exchanges m taken written m.cycle.machine := by
  have exchanges := settled { m with memory, ip := m.ip + i.size } (m.traceEvents i) rfl
  rw [cycle_of_dispatched (dispatch_of_evaluated fetched evaluated)]
  exact ⟨exchanges.input, exchanges.output⟩

end

/-- A cycle takes and writes what its instruction reads and writes. -/
theorem cycle_exchanges (m : Machine) : Exchanges m m.reads m.writes m.cycle.machine := by
  unfold reads writes
  cases fetched : m.fetch with
  | error fault =>
    rw [cycle_of_struck (dispatch_of_unfetched fetched)]
    exact (Exchanges.refl m).halted
  | ok i =>
    cases evaluated : i.evaluate m.relativeBase m.memory with
    | error fault memory =>
      have faulted := cycle_exchanges_faulted fetched evaluated
      cases i with
      | input dest => cases evaluated
      | output source =>
        rw [Instruction.evaluate_output] at evaluated
        cases loaded : Memory.load source m.relativeBase m.memory with
        | ok word left =>
          rw [loaded] at evaluated
          cases evaluated
        | error =>
          simp only [loaded]
          exact faulted
      | _ => exact faulted
    | ok effect memory =>
      have settles {taken written : List Word} :=
        @cycle_exchanges_evaluated m i effect memory taken written fetched evaluated
      cases i with
      | add | multiply | lessThan | equals =>
        refine settles fun k events _ => settle_exchanges_silent ?_ events
        exact .inl (Effect.combine_ok evaluated)
      | jumpIfTrue | jumpIfFalse =>
        refine settles fun k events _ => settle_exchanges_silent ?_ events
        rcases Effect.jumpWhen_ok evaluated with advances | ⟨target, jumps, -⟩
        · exact .inl advances
        · exact .inr (.inl ⟨target, jumps⟩)
      | input dest =>
        cases evaluated
        refine settles fun k events same => ?_
        rw [← same]
        exact settle_exchanges_input rfl events
      | output source =>
        rw [Instruction.evaluate_output] at evaluated
        cases loaded : Memory.load source m.relativeBase m.memory with
        | ok word left =>
          rw [loaded] at evaluated
          cases evaluated
          simp only [loaded]
          exact settles fun k events _ => settle_exchanges_output rfl events
        | error fault left =>
          rw [loaded] at evaluated
          cases evaluated
      | adjustRelativeBase offset =>
        refine settles fun k events _ => settle_exchanges_silent ?_ events
        rw [Instruction.evaluate_adjust] at evaluated
        cases loaded : Memory.load offset m.relativeBase m.memory with
        | ok word left =>
          rw [loaded] at evaluated
          cases evaluated
          exact .inr (.inr ⟨_, rfl⟩)
        | error fault left =>
          rw [loaded] at evaluated
          cases evaluated
      | halt =>
        cases evaluated
        exact settles fun k events _ => settle_exchanges_halt rfl events

/-! ## Calls that drive a machine -/

theorem execute_exchanges {fuel : Nat} {m n : Machine} {log events : Array Event} {result : Except Failure RunState}
    (executed : execute fuel m log = some ⟨result, n, events⟩) :
    Exchanges m ((m.cycled fuel).flatMap reads) ((m.cycled fuel).flatMap writes) n := by
  induction fuel generalizing m log with
  | zero => cases executed
  | succ fuel ih =>
    unfold cycled
    by_cases running : m.state = .running
    · rw [execute_of_running running] at executed
      rw [if_pos running]
      cases cycled : m.cycle.result with
      | ok step =>
        rw [cycled] at executed
        exact m.cycle_exchanges.trans (ih executed)
      | error failure =>
        rw [cycled] at executed
        cases executed
        simp only [List.flatMap_singleton]
        exact m.cycle_exchanges
    · rw [execute_of_stopped running] at executed
      rw [if_neg running]
      cases executed
      exact .refl _

theorem took_of_terminal {m : Machine} (atRest : m.state.isTerminal) (fuel : Nat) :
    m.took fuel = [] ∧ m.wrote fuel = [] := by
  have stopped : m.launched.state ≠ .running := by
    rw [launched_of_terminal atRest]
    exact RunState.stopped_of_terminal atRest
  have nothing : m.launched.cycled fuel = [] := by
    cases fuel with
    | zero => rfl
    | succ fuel => exact if_neg stopped
  unfold took wrote
  rw [nothing]
  exact ⟨rfl, rfl⟩

/-- The queues of a machine that is resumed are accounted for by what it has taken and written. -/
theorem resume_exchanges {fuel : Nat} {m n : Machine} {events : Array Event} {result : Except Failure RunState}
    (resumed : m.resume fuel = some ⟨result, n, events⟩) : Exchanges m (m.took fuel) (m.wrote fuel) n := by
  cases rest : m.state.isTerminal with
  | true =>
    obtain ⟨took, wrote⟩ := took_of_terminal rest fuel
    rw [resume_of_terminal rest] at resumed
    cases resumed
    rw [took, wrote]
    exact .refl m
  | false =>
    obtain ⟨log, same⟩ := resume_eq_execute rest
    have exchanges := execute_exchanges ((same fuel).symm.trans resumed)
    have input : m.launched.channel.input = m.channel.input := by
      unfold launched
      cases m.state with
      | initialising | running | awaitingInput | ended | halted => rfl
    exact ⟨input.symm.trans exchanges.input, by rw [exchanges.output, launched_output]; rfl⟩

end Machine

end IntegerMachine
