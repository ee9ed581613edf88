import IntegerMachine.Proofs.Registers
import IntegerMachine.Proofs.Stepping

/-!
# Determinacy

What a machine has done is told by the number of instructions it has carried out and by the words it has been fed,
whatever calls have driven it and whatever has been taken from it in between (`Journal.determined`). Any journal of
gentle calls has got where single steps on all the words get (`Account.OnTrack`), and these get there in one way.
-/
namespace IntegerMachine

namespace Machine

theorem SameProgress.symm {m m' : Machine} (same : SameProgress m m') : SameProgress m' m where
  memory := same.memory.symm
  ip := same.ip.symm
  relativeBase := same.relativeBase.symm
  steps := same.steps.symm
  outputCount := same.outputCount.symm
  lastOutput := same.lastOutput.symm

theorem SameProgress.trans {m m' m'' : Machine} (first : SameProgress m m') (second : SameProgress m' m'') :
    SameProgress m m'' where
  memory := second.memory.trans first.memory
  ip := second.ip.trans first.ip
  relativeBase := second.relativeBase.trans first.relativeBase
  steps := second.steps.trans first.steps
  outputCount := second.outputCount.trans first.outputCount
  lastOutput := second.lastOutput.trans first.lastOutput

namespace Stepped
variable {start c c' : Machine} {reads reads' count count' : Nat}

/-- So many counted instructions lead to one machine. -/
theorem unique (stepped : Stepped start reads count c) (stepped' : Stepped start reads' count c') : c' = c := by
  induction stepped generalizing reads' c' with
  | begin =>
    cases stepped' with
    | begin => rfl
  | input before _ _ ih | other before _ _ ih =>
    cases stepped' with
    | input before' _ _ | other before' _ _ => rw [ih before']

/-- Further instructions only add output. -/
theorem output_prefix (stepped : Stepped start reads count c) (stepped' : Stepped start reads' count' c')
    (fewer : count ≤ count') : c.output <+: c'.output := by
  have written {d : Machine} (counts : d.Counts) : d.output <+: d.step.machine.output := by
    obtain ⟨words, output, -⟩ := d.launched.cycle_follows.written
    refine ⟨words, ?_⟩
    rw [counts.machine_eq, ← d.launched_output, Machine.output, Machine.output, output, Array.toList_append]
  have still {d : Machine} (same : d = c) : c.output <+: d.output := same ▸ List.prefix_rfl
  induction stepped' with
  | begin =>
    obtain rfl := Nat.le_zero.mp fewer
    exact still (stepped.unique .begin)
  | @input reads' count' c' before counts atInput ih =>
    rcases Nat.lt_or_ge count (count' + 1) with earlier | all
    · exact (ih (Nat.lt_succ_iff.mp earlier)).trans (written counts)
    · obtain rfl := Nat.le_antisymm fewer all
      exact still (stepped.unique (.input before counts atInput))
  | @other reads' count' c' before counts other ih =>
    rcases Nat.lt_or_ge count (count' + 1) with earlier | all
    · exact (ih (Nat.lt_succ_iff.mp earlier)).trans (written counts)
    · obtain rfl := Nat.le_antisymm fewer all
      exact still (stepped.unique (.other before counts other))

end Stepped

/-- Launching a machine gets it no further, as long as it begins with its registers at zero. -/
theorem launched_sameProgress {m : Machine} (made : m.state = .initialising → m.ip = 0 ∧ m.relativeBase = 0) :
    SameProgress m m.launched := by
  unfold launched
  cases state : m.state with
  | initialising =>
    obtain ⟨ip, relativeBase⟩ := made state
    exact ⟨rfl, ip.symm, relativeBase.symm, rfl, rfl, rfl⟩
  | running | awaitingInput | ended | halted => exact ⟨rfl, rfl, rfl, rfl, rfl, rfl⟩

end Machine

open Machine

/-! ## Acts -/

namespace Account
variable {program : List Word} {config : Config} {a a' : Account}

/-- Single steps on all the words that the machine has been fed get to where it is, but for the output that has
    been taken from it. -/
def OnTrack (program : List Word) (config : Config) (a : Account) : Prop :=
  ∃ reads c, Stepped ((ofProgram program config).fed a.fed) reads a.machine.steps c ∧
    c.launched = a.machine.launched.holding a.taken

namespace OnTrack

theorem opened (program : List Word) (config : Config) : (Account.opened program config).OnTrack program config := by
  refine ⟨0, _, .begin, ?_⟩
  change ((ofProgram program config).fed []).launched = (ofProgram program config).launched.holding []
  rw [fed_nil, holding_nil]

/-- The machine that single steps get to has written what the other has. -/
theorem output_eq {c : Machine} (same : c.launched = a.machine.launched.holding a.taken) : c.output = a.emitted := by
  rw [← launched_output, same, output_holding, launched_output]
  rfl

theorem cycle (suspends : (ofProgram program config).Suspends) (track : a.OnTrack program config) {step : Step}
    (running : a.machine.state = .running) (done : a.machine.cycle.result = .ok step) :
    ({ a with machine := a.machine.cycle.machine } : Account).OnTrack program config := by
  obtain ⟨reads, c, stepped, same⟩ := track
  rw [launched_of_running running] at same
  have suspends : a.machine.Suspends := by
    have config : c.config = (ofProgram program config).config := stepped.config_eq
    have held : a.machine.config = c.config := by
      rw [← launched_config c, same]
      rfl
    exact suspends.of_config (held.trans config)
  have live : c.state.isTerminal = false := by
    cases rest : c.state.isTerminal with
    | false => rfl
    | true =>
      rw [launched_of_terminal rest] at same
      rw [same, show (a.machine.holding a.taken).state = a.machine.state from rfl, running] at rest
      cases rest
  have framed := a.machine.cycle_holding a.taken
  have carried (counted : a.machine.cycle.result = .ok .advanced ∨ a.machine.cycle.result = .ok .ended) :
      ({ a with machine := a.machine.cycle.machine } : Account).OnTrack program config := by
    have counts : c.Counts := by
      rw [Counts, (step_of_live live).1, same, framed]
      exact counted
    obtain ⟨reads, next⟩ := stepped.next counts
    rw [← cycle_counted counted] at next
    refine ⟨reads, _, next, ?_⟩
    rw [counts.machine_eq, same, framed]
    exact launched_holding _ a.taken
  rcases cycle_cooperative suspends.mode running with
    ⟨advanced, -⟩ | ⟨-, -, starving, -⟩ | ⟨ended, -⟩ | ⟨⟨_, _, failed⟩, -⟩
  · exact carried (.inl advanced)
  · obtain ⟨events, starved⟩ := cycle_of_starving suspends running starving
    rw [starved]
    refine ⟨reads, c, stepped, ?_⟩
    change c.launched = (a.machine.withState .awaitingInput).launched.holding a.taken
    rw [launched_of_suspended running, same]
  · exact carried (.inr ended)
  · cases done.symm.trans failed

theorem act (suspends : (ofProgram program config).Suspends) (act : Act true a a')
    (track : a.OnTrack program config) : a'.OnTrack program config := by
  cases act with
  | launch live =>
    obtain ⟨reads, c, stepped, same⟩ := track
    refine ⟨reads, c, ?_, ?_⟩
    · rw [show a.machine.launched.steps = a.machine.steps from a.machine.launched_steps]
      exact stepped
    · rw [same, launched_of_running (launched_running live)]
  | cycle running done => exact track.cycle suspends running done
  | feed words =>
    obtain ⟨reads, c, stepped, same⟩ := track
    refine ⟨reads, c.fed words, ?_, ?_⟩
    · rw [← fed_fed]
      exact stepped.fed (suspends.of_config rfl) words
    · rw [launched_fed, same, launched_fed]
      rfl
  | @take words rest front =>
    obtain ⟨reads, c, stepped, same⟩ := track
    refine ⟨reads, c, stepped, ?_⟩
    rw [launched_leaving, ← holding_holding, holding_leaving (a.machine.launched_output.trans front), same]
  | fault harsh | halt harsh | poke harsh => cases harsh

theorem acts (suspends : (ofProgram program config).Suspends) (acts : Acts true (.opened program config) a) :
    a.OnTrack program config := by
  induction acts with
  | refl => exact .opened program config
  | tail _ last ih => exact ih.act suspends last

end OnTrack

end Account

/-! ## Journals -/

namespace Journal
variable {program : List Word} {config : Config} {calls calls' : List (Call × Except Failure Unit)} {a a' : Account}

/-- Any two journals of gentle calls that come to no fault, on machines with the same program that suspend when
    they run out of input. Let the words fed in the one begin those fed in the other. Then the machine that has
    carried out fewer instructions has written the beginning of what the other has, and after as many instructions
    the two agree in memory, registers and counts, and have written the same. -/
theorem determined (mode : config.mode = .cooperative) (unserved : config.defaultInput = none)
    (journal : Journal program config calls a) (journal' : Journal program config calls' a')
    (calm : ∀ entry ∈ calls, entry.1.IsGentle ∧ ¬ Faulted entry.2)
    (calm' : ∀ entry ∈ calls', entry.1.IsGentle ∧ ¬ Faulted entry.2) (ahead : a.fed <+: a'.fed) :
    (a.machine.steps ≤ a'.machine.steps → a.emitted <+: a'.emitted) ∧
    (a'.machine.steps ≤ a.machine.steps → a'.emitted <+: a.emitted) ∧
    (a.machine.steps = a'.machine.steps → SameProgress a.machine a'.machine ∧ a'.emitted = a.emitted) := by
  have suspends : (ofProgram program config).Suspends := ⟨mode, unserved⟩
  have acts : Acts true _ a := journal.acts mode fun _ => calm
  have acts' : Acts true _ a' := journal'.acts mode fun _ => calm'
  obtain ⟨reads, c, stepped, same⟩ := Account.OnTrack.acts suspends acts
  obtain ⟨reads', c', stepped', same'⟩ := Account.OnTrack.acts suspends acts'
  obtain ⟨more, fed⟩ := ahead
  -- both have got where single steps on the longer stream get
  have longer := stepped.fed (suspends.of_config rfl) more
  rw [fed_fed, fed] at longer
  have emitted : (c.fed more).output = a.emitted := Account.OnTrack.output_eq (c := c) same
  have emitted' : c'.output = a'.emitted := Account.OnTrack.output_eq same'
  refine ⟨fun fewer => ?_, fun fewer => ?_, fun equal => ?_⟩
  · rw [← emitted, ← emitted']
    exact longer.output_prefix stepped' fewer
  · rw [← emitted, ← emitted']
    exact stepped'.output_prefix longer fewer
  · rw [← equal] at stepped'
    obtain rfl := longer.unique stepped'
    have order := (Account.InOrder.opened program config).acts acts
    have order' := (Account.InOrder.opened program config).acts acts'
    have launched := launched_sameProgress fun made => ⟨(order.made made).1, (order.made made).2.1⟩
    have launched' := launched_sameProgress fun made => ⟨(order'.made made).1, (order'.made made).2.1⟩
    have held : SameProgress a.machine.launched (c.fed more).launched := by
      rw [launched_fed, same]
      exact ⟨rfl, rfl, rfl, rfl, rfl, rfl⟩
    have held' : SameProgress a'.machine.launched (c.fed more).launched := by
      rw [same']
      exact ⟨rfl, rfl, rfl, rfl, rfl, rfl⟩
    exact ⟨(launched.trans held).trans (launched'.trans held').symm, emitted'.symm.trans emitted⟩

/-- A machine that writes every word it reads, run on one word, and stepped on two. -/
theorem determined_echo :
    ∃ a a', Journal [3, 7, 4, 7, 1105, 1, 0] {} [(.runWith [5], .ok ())] a ∧
      Journal [3, 7, 4, 7, 1105, 1, 0] {}
        [(.feedAll [5, 6], .ok ()), (.step, .ok ()), (.step, .ok ()), (.tryConsume, .ok ()), (.step, .ok ())] a' ∧
      a.machine.steps = 3 ∧ a'.machine.steps = 3 ∧ a.taken = a'.taken ∧ a.machine.state ≠ a'.machine.state ∧
      SameProgress a.machine a'.machine ∧ a'.emitted = a.emitted := by
  have opened : Journal [3, 7, 4, 7, 1105, 1, 0] {} [] _ := .made
  obtain ⟨a, ran, steps, fed, taken, state⟩ : ∃ a, Journal [3, 7, 4, 7, 1105, 1, 0] {} [(.runWith [5], .ok ())] a ∧
      a.machine.steps = 3 ∧ a.fed = [5] ∧ a.taken = [5] ∧ a.machine.state = .awaitingInput :=
    ⟨_, opened.call (.runWith [5]) 20 rfl, rfl, rfl, rfl, rfl⟩
  obtain ⟨a', stepped, steps', fed', taken', state'⟩ : ∃ a', Journal [3, 7, 4, 7, 1105, 1, 0] {}
      [(.feedAll [5, 6], .ok ()), (.step, .ok ()), (.step, .ok ()), (.tryConsume, .ok ()), (.step, .ok ())] a' ∧
      a'.machine.steps = 3 ∧ a'.fed = [5, 6] ∧ a'.taken = [5] ∧ a'.machine.state = .running := by
    have written := ((opened.call (.feedAll [5, 6]) 0 rfl).call .step 0 rfl).call .step 0 rfl
    exact ⟨_, (written.call .tryConsume 0 rfl).call .step 0 rfl, rfl, rfl, rfl, rfl⟩
  have ahead : a.fed <+: a'.fed := by
    rw [fed, fed']
    exact ⟨[6], rfl⟩
  obtain ⟨-, -, agree⟩ := determined rfl rfl ran stepped (by simp [Call.IsGentle, Faulted])
    (by simp [Call.IsGentle, Faulted]) ahead
  obtain ⟨same, emitted⟩ := agree (steps.trans steps'.symm)
  refine ⟨a, a', ran, stepped, steps, steps', taken.trans taken'.symm, ?_, same, emitted⟩
  rw [state, state']
  exact nofun

end Journal

end IntegerMachine
