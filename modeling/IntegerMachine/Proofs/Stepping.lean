import IntegerMachine.Proofs.Suspension

/-!
# Counted steps

A machine that has carried out some number of instructions, one by one (`Stepped`). Each input instruction has
taken the first word left to it (`Stepped.input_eq`), and words queued behind those change nothing
(`Stepped.fed`).
-/
namespace IntegerMachine.Machine

/-- The next step carries an instruction out. -/
def Counts (m : Machine) : Prop := m.step.result = .ok .advanced ∨ m.step.result = .ok .ended

/-- The machine after a number of counted instructions, some of which were input instructions. -/
inductive Stepped (start : Machine) : Nat → Nat → Machine → Prop
  | begin : Stepped start 0 0 start
  | input {reads count : Nat} {c : Machine} (before : Stepped start reads count c) (counts : c.Counts)
      (atInput : c.launched.AtInput) : Stepped start (reads + 1) (count + 1) c.step.machine
  | other {reads count : Nat} {c : Machine} (before : Stepped start reads count c) (counts : c.Counts)
      (other : ¬ c.launched.AtInput) : Stepped start reads (count + 1) c.step.machine

theorem live_of_step_ok {m : Machine} {step : Step} (done : m.step.result = .ok step) :
    m.state.isTerminal = false := by
  cases rest : m.state.isTerminal with
  | false => rfl
  | true =>
    rw [step_of_terminal rest] at done
    cases done

theorem launched_steps (m : Machine) : m.launched.steps = m.steps := by
  unfold launched
  cases m.state <;> rfl

theorem launched_input (m : Machine) : m.launched.channel.input = m.channel.input := by
  unfold launched
  cases m.state <;> rfl

/-- Words behind those queued make no difference to a step that does not suspend. -/
theorem step_fed {m : Machine} (suspends : m.Suspends) (live : m.state.isTerminal = false)
    (served : m.step.result ≠ .ok .suspended) (words : List Word) :
    (m.fed words).step.result = m.step.result ∧ (m.fed words).step.machine = m.step.machine.fed words := by
  obtain ⟨result, machine⟩ := step_of_live live
  obtain ⟨result', machine'⟩ := step_of_live (m := m.fed words) live
  have launchedSuspends : m.launched.Suspends := suspends.of_config m.launched_config
  have unstarved := served_of_result launchedSuspends (launched_running live) (by rw [← result]; exact served)
  rw [launched_fed, cycle_fed words unstarved] at result' machine'
  exact ⟨result'.trans result.symm, by rw [machine', machine]; rfl⟩

namespace Counts
variable {m : Machine}

theorem live (counts : m.Counts) : m.state.isTerminal = false := by
  rcases counts with done | done
  · exact live_of_step_ok done
  · exact live_of_step_ok done

theorem machine_eq (counts : m.Counts) : m.step.machine = m.launched.cycle.machine := (step_of_live counts.live).2

theorem cycle (counts : m.Counts) :
    m.launched.cycle.result = .ok .advanced ∨ m.launched.cycle.result = .ok .ended := by
  rw [← (step_of_live counts.live).1]
  exact counts

theorem fed (counts : m.Counts) (suspends : m.Suspends) (words : List Word) :
    (m.fed words).Counts ∧ (m.fed words).step.machine = m.step.machine.fed words := by
  have served : m.step.result ≠ .ok .suspended := by
    rcases counts with done | done
    · rw [done]
      exact nofun
    · rw [done]
      exact nofun
  obtain ⟨result, machine⟩ := step_fed suspends counts.live served words
  exact ⟨by rw [Counts, result]; exact counts, machine⟩

theorem state (counts : m.Counts) (suspends : m.Suspends) :
    m.step.machine.state = .running ∨ m.step.machine.state = .ended := by
  have mode : m.launched.config.mode = .cooperative := (congrArg Config.mode m.launched_config).trans suspends.mode
  rw [counts.machine_eq]
  rcases cycle_cooperative mode (launched_running counts.live) with
    ⟨-, state⟩ | ⟨result, -⟩ | ⟨-, state⟩ | ⟨⟨_, _, failed⟩, -⟩
  · exact .inl state
  · rcases counts.cycle with done | done
    · cases result.symm.trans done
    · cases result.symm.trans done
  · exact .inr state
  · rcases counts.cycle with done | done
    · cases failed.symm.trans done
    · cases failed.symm.trans done

end Counts

namespace Stepped
variable {start c : Machine} {reads count : Nat}

theorem config_eq (stepped : Stepped start reads count c) : c.config = start.config := by
  induction stepped with
  | begin => rfl
  | @input _ _ c _ counts _ ih | @other _ _ c _ counts _ ih =>
    rw [counts.machine_eq, c.launched.cycle_follows.config, launched_config, ih]

theorem steps_eq (stepped : Stepped start reads count c) : c.steps = start.steps + count := by
  induction stepped with
  | begin => rfl
  | @input _ _ c _ counts _ ih | @other _ _ c _ counts _ ih =>
    rw [counts.machine_eq, cycle_counted counts.cycle, launched_steps, ih, Nat.add_assoc]

theorem fed (stepped : Stepped start reads count c) (suspends : start.Suspends) (words : List Word) :
    Stepped (start.fed words) reads count (c.fed words) := by
  induction stepped with
  | begin => exact .begin
  | @input reads count c before counts atInput ih =>
    obtain ⟨counts', machine⟩ := counts.fed (suspends.of_config before.config_eq) words
    rw [← machine]
    refine .input ih counts' ?_
    rw [launched_fed]
    exact atInput
  | @other reads count c before counts other ih =>
    obtain ⟨counts', machine⟩ := counts.fed (suspends.of_config before.config_eq) words
    rw [← machine]
    refine .other ih counts' ?_
    rw [launched_fed]
    exact other

/-- Each input instruction has taken the first word left to it. -/
theorem input_eq (stepped : Stepped start reads count c) (suspends : start.Suspends) :
    c.channel.input = start.channel.input.drop reads ∧ reads ≤ start.channel.input.length := by
  induction stepped with
  | begin => exact ⟨rfl, Nat.zero_le _⟩
  | @input reads count c before counts atInput ih =>
    obtain ⟨left, enough⟩ := ih
    have launchedSuspends : c.launched.Suspends :=
      suspends.of_config (c.launched_config.trans before.config_eq)
    obtain ⟨word, taken⟩ :=
      cycle_input_of_read launchedSuspends (launched_running counts.live) atInput counts.cycle
    rw [launched_input, left] at taken
    have more : reads < start.channel.input.length := by
      have length := congrArg List.length taken
      rw [List.length_drop, List.length_cons] at length
      omega
    rw [counts.machine_eq, ← List.drop_drop, taken]
    exact ⟨rfl, more⟩
  | @other reads count c before counts other ih =>
    rw [counts.machine_eq, cycle_input_of_other other, launched_input]
    exact ih

/-- The machine has not been started yet, runs or has ended. -/
theorem state_cases (stepped : Stepped start reads count c) (suspends : start.Suspends) :
    c = start ∨ c.state = .running ∨ c.state = .ended := by
  cases stepped with
  | begin => exact .inl rfl
  | @input _ _ c before counts _ | @other _ _ c before counts _ =>
    exact .inr (counts.state (suspends.of_config before.config_eq))

theorem next (stepped : Stepped start reads count c) (counts : c.Counts) :
    ∃ reads, Stepped start reads (count + 1) c.step.machine := by
  by_cases atInput : c.launched.AtInput
  · exact ⟨_, .input stepped counts atInput⟩
  · exact ⟨_, .other stepped counts atInput⟩

end Stepped

end IntegerMachine.Machine
