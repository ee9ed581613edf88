import IntegerMachine.Proofs.Registers
import IntegerMachine.Proofs.Transcript

/-!
# Default input

A default input is an endless supply of one word behind the words that have been fed. A machine that has one never awaits
input, and a run of it is that of the same machine without, which has been fed the word once for each time it was
called for (`Machine.run_default`). The one thing to see is that a cycle which falls back on the default does what it
does if the word is queued (`Machine.cycle_of_default`), and that no other cycle looks at the default
(`Machine.cycle_unserved`).
-/
namespace IntegerMachine
namespace Machine

/-- The next cycle falls back on the default input: an input instruction is next, and no word is queued. -/
def fallsBack (m : Machine) : Bool :=
  match m.fetch with
  | .ok (.input _) => m.channel.input.isEmpty && m.config.defaultInput.isSome
  | _ => false

/-- The number of times that a machine falls back on the default input when it is resumed. -/
def fallbacks (fuel : Nat) (m : Machine) : Nat := (m.launched.cycled fuel).countP fallsBack

/-- The machine without a default input. -/
def unserved (m : Machine) : Machine := { m with config := { m.config with defaultInput := none } }

section
variable {m n : Machine} {word : Word}

theorem fallsBack_iff (served : m.config.defaultInput = some word) : m.fallsBack ↔ m.Starving := by
  unfold fallsBack Starving AtInput
  rw [served]
  cases fetched : m.fetch with
  | error fault => simp
  | ok i => cases i <;> simp

/-! ## Cycles -/

/-- A machine that falls back on the default does what it does if that word is queued. -/
theorem cycle_of_default (served : m.config.defaultInput = some word) (starving : m.Starving) :
    (m.fed [word]).cycle = m.cycle := by
  obtain ⟨⟨dest, fetched⟩, empty⟩ := starving
  have evaluated : (Instruction.input dest).evaluate m.relativeBase m.memory = .ok (.input dest) m.memory := rfl
  have dispatched := dispatch_of_evaluated fetched evaluated
  have dispatched' := m.dispatch_fed [word]
  rw [dispatched] at dispatched'
  rw [cycle_of_dispatched dispatched, cycle_of_dispatched dispatched']
  generalize behind : ({ m with memory := m.memory, ip := m.ip + (Instruction.input dest).size } : Machine) = k
  have queue : k.channel.input = [] := by rw [← behind, empty]
  have config : k.config = m.config := by rw [← behind]
  have read : k.readInput = (.ok (some word), k) := by
    simp only [readInput, Channel.pop?_input_eq_none.mpr queue, config, served]
  have read' : (k.fed [word]).readInput = (.ok (some word), k) := by
    have front : (k.fed [word]).channel.input = [word] := by
      simp only [fed, mapChannel, queue, List.nil_append]
    have same : (k.fed [word]).withInput [] = k := by
      rw [← queue]
      rfl
    rw [readInput_of_queued front, same]
  unfold settle
  simp only [read, read']

/-- A cycle that finds the word it needs does not look at the default. -/
theorem cycle_unserved (supplied : ¬ m.Starving) : m.unserved.cycle = m.cycle.map unserved :=
  cycle_reconfigured (g := fun config => { config with defaultInput := none }) ⟨fun _ => rfl, fun _ => rfl⟩ supplied

/-- A cycle of a machine with a default input is one of the machine without that has been fed the word if it needs it,
    whatever has been fed behind it. -/
theorem cycle_unserved_fed (served : m.config.defaultInput = some word) (words : List Word) :
    (m.unserved.fed (List.replicate (if m.fallsBack then 1 else 0) word ++ words)).cycle =
      m.cycle.map fun n => n.unserved.fed words := by
  by_cases starving : m.Starving
  · have supplied : ¬ (m.fed [word]).Starving := fun starved => by
      have queue : m.channel.input ++ [word] = [] := starved.2
      simp at queue
    have supplied' : ¬ (m.fed [word]).unserved.Starving := supplied
    rw [if_pos ((fallsBack_iff served).mpr starving), List.replicate_one, ← fed_fed]
    calc ((m.fed [word]).unserved.fed words).cycle
      _ = (m.fed [word]).unserved.cycle.map (·.fed words) := cycle_fed words supplied'
      _ = ((m.fed [word]).cycle.map unserved).map (·.fed words) := by rw [cycle_unserved supplied]
      _ = (m.cycle.map unserved).map (·.fed words) := by rw [cycle_of_default served starving]
  · have supplied : ¬ m.unserved.Starving := starving
    rw [if_neg (mt (fallsBack_iff served).mp starving), List.replicate_zero, List.nil_append, cycle_fed words supplied,
      cycle_unserved starving]
    rfl

/-! ## Runs -/

theorem run_of_made (made : m.state = .initialising) (fuel : Nat) :
    m.run fuel = execute fuel m.launched #[.started m.name m.memory.size] := by
  have moved : m.channel.transition? .initialising .running = some { m.channel with state := .running } :=
    if_pos made
  unfold launched
  simp only [run, start, moved, made]
  rfl

theorem execute_unserved {fuel : Nat} {log events : Array Event} {result : Except Failure RunState}
    (served : m.config.defaultInput = some word) (executed : execute fuel m log = some ⟨result, n, events⟩) :
    execute fuel (m.unserved.fed (List.replicate ((m.cycled fuel).countP fallsBack) word)) log =
      some ⟨result, n.unserved, events⟩ := by
  -- On the bound: each cycle uses up the copy that it falls back on, and leaves those of the cycles after it.
  induction fuel generalizing m log with
  | zero => cases executed
  | succ fuel ih =>
    unfold cycled
    by_cases running : m.state = .running
    · rw [if_pos running, List.countP_cons, Nat.add_comm (List.countP _ _), List.replicate_add]
      rw [execute_of_running running] at executed
      have running' : ∀ words, (m.unserved.fed words).state = .running := fun _ => running
      rw [execute_of_running (running' _), cycle_unserved_fed served]
      cases cycled : m.cycle.result with
      | ok step =>
        rw [cycled] at executed
        have later := ih ((congrArg Config.defaultInput m.cycle_follows.config).trans served) executed
        simp only [Outcome.map, cycled]
        exact later
      | error failure =>
        rw [cycled] at executed
        cases executed
        simp only [Outcome.map, cycled, List.countP_nil, List.replicate_zero, fed_nil]
    · have stopped : m.unserved.state ≠ .running := running
      rw [execute_of_stopped running] at executed
      cases executed
      rw [if_neg running, List.countP_nil, List.replicate_zero, fed_nil, execute_of_stopped stopped]
      rfl

/-- Once a machine has fallen back on the default, no word is queued any more. -/
theorem input_of_fallbacks {fuel : Nat} {log events : Array Event} {result : Except Failure RunState}
    (executed : execute fuel m log = some ⟨result, n, events⟩) (fell : 0 < (m.cycled fuel).countP fallsBack) :
    n.channel.input = [] := by
  induction fuel generalizing m log with
  | zero => cases executed
  | succ fuel ih =>
    by_cases empty : m.channel.input = []
    -- An empty queue stays empty, and before it is empty there is no falling back.
    · have exchanged := (execute_exchanges executed).input
      rw [empty] at exchanged
      exact (List.append_eq_nil_iff.mp exchanged.symm).2
    · have stays : ¬ m.fallsBack := by
        unfold fallsBack
        split <;> simp [empty]
      unfold cycled at fell
      by_cases running : m.state = .running
      · rw [if_pos running, List.countP_cons_of_neg stays] at fell
        rw [execute_of_running running] at executed
        cases cycled : m.cycle.result with
        | ok step =>
          rw [cycled] at executed fell
          exact ih executed fell
        | error failure =>
          rw [cycled] at fell
          cases fell
      · rw [if_neg running] at fell
        cases fell

/-! ## Awaiting input -/

/-- A cooperative machine with a default input that does not await input. -/
structure Supplied (m : Machine) : Prop where
  mode : m.config.mode = .cooperative
  served : m.config.defaultInput ≠ none
  state : m.state ≠ .awaitingInput

namespace Supplied

theorem of_config (supplied : m.Supplied) (config : n.config = m.config) (state : n.state ≠ .awaitingInput) :
    n.Supplied :=
  ⟨config ▸ supplied.mode, config ▸ supplied.served, state⟩

theorem launched (supplied : m.Supplied) : m.launched.Supplied := by
  refine supplied.of_config m.launched_config ?_
  have state := supplied.state
  unfold Machine.launched
  cases was : m.state with
  | initialising | awaitingInput => exact nofun
  | running | ended | halted => exact state

theorem cycle (supplied : m.Supplied) (running : m.state = .running) : m.cycle.machine.Supplied := by
  refine supplied.of_config m.cycle_follows.config fun awaiting => ?_
  rcases cycle_cooperative supplied.mode running with ⟨-, state⟩ | ⟨-, -, -, unserved⟩ | ⟨-, state⟩ | ⟨-, state⟩
  · cases awaiting.symm.trans state
  · exact supplied.served unserved
  · cases awaiting.symm.trans state
  · cases awaiting.symm.trans state

theorem visited (supplied : m.Supplied) (fuel : Nat) : ∀ k ∈ m.visited fuel, k.Supplied := by
  induction fuel generalizing m with
  | zero => simpa only [Machine.visited, List.forall_mem_singleton] using supplied
  | succ fuel ih =>
    simp only [Machine.visited, List.forall_mem_cons]
    by_cases running : m.state = .running
    · rw [if_pos running]
      exact ⟨supplied, ih (supplied.cycle running)⟩
    · rw [if_neg running]
      exact ⟨supplied, List.forall_mem_nil _⟩

theorem halted (supplied : m.Supplied) : m.halted.Supplied := by
  refine supplied.of_config m.halted_follows.config ?_
  cases rest : m.state.isTerminal with
  | true =>
    rw [halted_of_terminal rest]
    exact supplied.state
  | false =>
    rw [halted_of_live rest]
    exact nofun

theorem act {gentle : Bool} {a a' : Account} (supplied : a.machine.Supplied) (act : Act gentle a a') :
    a'.machine.Supplied := by
  cases act with
  | launch => exact supplied.launched
  | cycle running | fault _ running => exact supplied.cycle running
  | feed | take => exact supplied.of_config rfl supplied.state
  | halt => exact supplied.halted
  | poke harsh made address word =>
    rw [poke_machine made]
    exact supplied.of_config rfl supplied.state

theorem acts {gentle : Bool} {a a' : Account} (supplied : a.machine.Supplied) (acts : Acts gentle a a') :
    a'.machine.Supplied := by
  induction acts with
  | refl => exact supplied
  | tail _ last ih => exact ih.act last

/-- Whatever call is made, the machine does not come to await input, not even while the call goes on. -/
theorem call {call : Call} {fuel : Nat} {result : Except Failure Unit} (supplied : m.Supplied)
    (performed : call.perform fuel m = some (result, n)) : n.Supplied ∧ ∀ k ∈ call.between fuel m, k.Supplied := by
  have further : call.ActsOut false fuel m n := call.acts supplied.mode performed nofun
  refine ⟨supplied.acts (further [] []), ?_⟩
  cases call with
  | run =>
    simp only [Call.between]
    split
    · exact supplied.launched.visited fuel
    · exact List.forall_mem_nil _
  | resume => exact supplied.launched.visited fuel
  | step => simpa only [Call.between, List.forall_mem_singleton] using supplied.launched
  | runWith words =>
    have fed : (m.fed words).Supplied := supplied.of_config rfl supplied.state
    exact fed.launched.visited fuel
  | _ => exact List.forall_mem_nil _

theorem history {program : List Word} {config : Config} {states : List RunState} (mode : config.mode = .cooperative)
    (served : config.defaultInput ≠ none) (history : History program config states m) :
    m.Supplied ∧ .awaitingInput ∉ states := by
  induction history with
  | made => exact ⟨⟨mode, served, nofun⟩, mt List.mem_singleton.mp nofun⟩
  | call before call fuel performed ih =>
    obtain ⟨supplied, unawaited⟩ := ih
    obtain ⟨left, between⟩ := supplied.call performed
    refine ⟨left, ?_⟩
    simp only [List.mem_append, List.mem_map, List.mem_singleton, not_or, not_exists, not_and]
    exact ⟨unawaited, fun k member => (between k member).state, left.state.symm⟩

end Supplied

/-- A default input is an endless supply of one word behind the words that have been fed. Take a program on a
    cooperative machine with a default input. However it is driven, it never comes to await input. If it is fed some
    words and a run of it comes back, having fallen back on the default some number of times, then the same machine
    without a default that is fed the word so many times behind the others comes back in the same way, and is the
    same but for the default. Nothing is left of the words fed if the default has been used. -/
theorem run_default (program : List Word) {config : Config} (mode : config.mode = .cooperative)
    (served : config.defaultInput = some word) :
    (∀ states m, History program config states m → .awaitingInput ∉ states) ∧
    ∀ words fuel result n events,
      ((ofProgram program config).fed words).run fuel = some ⟨result, n, events⟩ →
      let count := fallbacks fuel ((ofProgram program config).fed words)
      ((ofProgram program { config with defaultInput := none }).fed (words ++ List.replicate count word)).run fuel =
          some ⟨result, n.unserved, events⟩ ∧
        (0 < count → n.channel.input = []) := by
  refine ⟨fun states m history => (Supplied.history mode (by simp [served]) history).2, ?_⟩
  intro words fuel result n events ran
  rw [run_of_made rfl] at ran
  have executed := execute_unserved ((congrArg Config.defaultInput (launched_config _)).trans served) ran
  refine ⟨?_, input_of_fallbacks ran⟩
  rw [run_of_made rfl, ← fed_fed, launched_fed]
  exact executed

/-- A program that adds two words of input, of which only one is fed. -/
theorem run_default_sum :
    ∃ n events, ((ofProgram [3, 0, 3, 1, 1, 0, 1, 0, 4, 0, 99] { defaultInput := some 7 }).fed [5]).run 9 =
        some ⟨.ok .ended, n, events⟩ ∧ n.output = [12] ∧
      ((ofProgram [3, 0, 3, 1, 1, 0, 1, 0, 4, 0, 99] {}).fed [5, 7]).run 9 = some ⟨.ok .ended, n.unserved, events⟩ ∧
      n.channel.input = [] ∧
      ∃ states m, History [3, 0, 3, 1, 1, 0, 1, 0, 4, 0, 99] { defaultInput := some 7 } states m ∧
        states.length = 8 ∧ .awaitingInput ∉ states := by
  obtain ⟨n, events, ran, wrote⟩ : ∃ n events,
      ((ofProgram [3, 0, 3, 1, 1, 0, 1, 0, 4, 0, 99] { defaultInput := some 7 }).fed [5]).run 9 =
        some ⟨.ok .ended, n, events⟩ ∧ n.output = [12] := ⟨_, _, rfl, rfl⟩
  obtain ⟨states, m, history, length⟩ : ∃ states m,
      History [3, 0, 3, 1, 1, 0, 1, 0, 4, 0, 99] { defaultInput := some 7 } states m ∧ states.length = 8 :=
    ⟨_, _, .call .made .run 9 rfl, rfl⟩
  have mode : Config.mode { defaultInput := some 7 } = .cooperative := rfl
  have served : Config.defaultInput { defaultInput := some 7 } = some 7 := rfl
  obtain ⟨unawaited, same⟩ := run_default [3, 0, 3, 1, 1, 0, 1, 0, 4, 0, 99] mode served
  obtain ⟨ran', used⟩ := same [5] 9 _ n events ran
  exact ⟨n, events, ran, wrote, ran', used (by decide), states, m, history, length, unawaited states m history⟩

end

end Machine
end IntegerMachine
