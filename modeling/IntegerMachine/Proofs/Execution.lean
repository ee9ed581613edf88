import IntegerMachine.Proofs.Frame

/-!
# Runs

What it means that a call with a bound on its cycles comes back (`Returns`), and the run behind it as a
relation without bound (`Runs`). A call that drives a machine sets it running (`launched`) and then runs it:
`returns_resume_iff` and `returns_runWith_iff`.
-/
namespace IntegerMachine

/-- With some bound the call comes back with this result and leaves this machine. -/
def Returns {α : Type} (call : Nat → Option (Outcome α)) (result : Except Failure α) (m : Machine) : Prop :=
  ∃ fuel events, call fuel = some ⟨result, m, events⟩

namespace Machine

/-- A run of a machine that comes to an end, with its result and the machine it leaves. -/
inductive Runs : Machine → Except Failure RunState → Machine → Prop
  | rest {m : Machine} (stopped : m.state ≠ .running) : Runs m (.ok m.state) m
  | fault {m : Machine} {failure : Failure} (running : m.state = .running)
      (failed : m.cycle.result = .error failure) : Runs m (.error failure) m.cycle.machine
  | cycle {m n : Machine} {step : Step} {result : Except Failure RunState} (running : m.state = .running)
      (done : m.cycle.result = .ok step) (later : Runs m.cycle.machine result n) : Runs m result n

namespace Runs
variable {m n n' : Machine} {result result' : Except Failure RunState}

/-- A machine has one run. -/
theorem unique (run : Runs m result n) (other : Runs m result' n') : result = result' ∧ n = n' := by
  induction run with
  | rest stopped =>
    cases other with
    | rest => exact ⟨rfl, rfl⟩
    | fault running | cycle running => exact absurd running stopped
  | fault running failed =>
    cases other with
    | rest stopped => exact absurd running stopped
    | fault _ failed' =>
      cases failed.symm.trans failed'
      exact ⟨rfl, rfl⟩
    | cycle _ done => cases failed.symm.trans done
  | cycle running done later ih =>
    cases other with
    | rest stopped => exact absurd running stopped
    | fault _ failed => cases failed.symm.trans done
    | cycle _ _ later' => exact ih later'

theorem follows (run : Runs m result n) : Follows m n := by
  induction run with
  | rest => exact .silent rfl rfl rfl rfl
  | fault => exact cycle_follows _
  | cycle _ _ _ ih => exact (cycle_follows _).trans ih

theorem state_ok {state : RunState} (run : Runs m (.ok state) n) : n.state = state ∧ state ≠ .running := by
  generalize ended : (Except.ok state : Except Failure RunState) = result at run
  induction run with
  | rest stopped =>
    cases ended
    exact ⟨rfl, stopped⟩
  | fault => cases ended
  | cycle _ _ _ ih => exact ih ended

end Runs

/-! ## Bounded execution -/

theorem execute_of_stopped {m : Machine} (stopped : m.state ≠ .running) (fuel : Nat) (log : Array Event) :
    execute (fuel + 1) m log = some ⟨.ok m.state, m, log.push (.returning m.name m.ip m.steps m.state)⟩ := by
  unfold execute
  rw [if_neg stopped]

theorem execute_of_running {m : Machine} (running : m.state = .running) (fuel : Nat) (log : Array Event) :
    execute (fuel + 1) m log =
      match m.cycle.result with
      | .ok _ => execute fuel m.cycle.machine (log ++ m.cycle.events)
      | .error failure => some ⟨.error failure, m.cycle.machine, log ++ m.cycle.events⟩ := by
  rw [execute, if_pos running]
  rcases m.cycle with ⟨result, m', events⟩
  cases result <;> rfl

theorem runs_of_execute {fuel : Nat} {m n : Machine} {log events : Array Event} {result : Except Failure RunState}
    (executed : execute fuel m log = some ⟨result, n, events⟩) : Runs m result n := by
  induction fuel generalizing m log with
  | zero => cases executed
  | succ fuel ih =>
    by_cases running : m.state = .running
    · rw [execute_of_running running] at executed
      cases cycled : m.cycle.result with
      | ok step =>
        rw [cycled] at executed
        exact .cycle running cycled (ih executed)
      | error failure =>
        rw [cycled] at executed
        cases executed
        exact .fault running cycled
    · rw [execute_of_stopped running] at executed
      cases executed
      exact .rest running

/-- A run that comes to an end is found with every bound from some bound on. -/
theorem Runs.execute_eventually {m n : Machine} {result : Except Failure RunState} (run : Runs m result n) :
    ∀ log, ∃ bound events, ∀ fuel, bound ≤ fuel → execute fuel m log = some ⟨result, n, events⟩ := by
  induction run with
  | @rest m stopped =>
    intro log
    refine ⟨1, log.push (.returning m.name m.ip m.steps m.state), fun fuel enough => ?_⟩
    obtain ⟨fuel, rfl⟩ := Nat.exists_eq_add_of_le' enough
    exact execute_of_stopped stopped fuel log
  | @fault m failure running failed =>
    intro log
    refine ⟨1, log ++ m.cycle.events, fun fuel enough => ?_⟩
    obtain ⟨fuel, rfl⟩ := Nat.exists_eq_add_of_le' enough
    rw [execute_of_running running, failed]
  | @cycle m n step result running done later ih =>
    intro log
    obtain ⟨bound, events, found⟩ := ih (log ++ m.cycle.events)
    refine ⟨bound + 1, events, fun fuel enough => ?_⟩
    obtain ⟨fuel, rfl⟩ := Nat.exists_eq_add_of_le' (Nat.le_trans (Nat.le_add_left 1 bound) enough)
    rw [execute_of_running running, done]
    exact found fuel (Nat.le_of_succ_le_succ enough)

/-! ## Calls that drive a machine -/

/-- The machine as a call that drives it sets it running: a new one begins at the start of its program,
    and one at rest stays as it is. -/
def launched (m : Machine) : Machine :=
  match m.state with
  | .initialising => { m.withState .running with ip := 0, relativeBase := 0 }
  | .running => m
  | .awaitingInput => m.withState .running
  | .ended | .halted => m

theorem launched_of_running {m : Machine} (running : m.state = .running) : m.launched = m := by
  unfold launched
  rw [running]

theorem launched_of_awaiting {m : Machine} (awaiting : m.state = .awaitingInput) :
    m.launched = m.withState .running := by
  unfold launched
  rw [awaiting]

/-- A machine that has suspended is launched into what it was. -/
theorem launched_of_suspended {m : Machine} (running : m.state = .running) :
    (m.withState .awaitingInput).launched = m := by
  rw [launched_of_awaiting rfl]
  change m.withState .running = m
  rw [← running, withState_state]

theorem launched_of_terminal {m : Machine} (atRest : m.state.isTerminal) : m.launched = m := by
  unfold launched
  cases state : m.state with
  | initialising | awaitingInput =>
    rw [state] at atRest
    cases atRest
  | running | ended | halted => rfl

theorem launched_running {m : Machine} (live : m.state.isTerminal = false) : m.launched.state = .running := by
  unfold launched
  cases state : m.state with
  | initialising | awaitingInput => rfl
  | running => exact state
  | ended | halted =>
    rw [state] at live
    cases live

/-- Launching commutes with a change of the channel that leaves the run state alone. -/
theorem launched_mapChannel {f : Channel → Channel} (state : ∀ c, (f c).state = c.state)
    (withState : ∀ c state, f { c with state } = { f c with state }) (m : Machine) :
    (m.mapChannel f).launched = m.launched.mapChannel f := by
  have moved : ∀ state, (m.mapChannel f).withState state = (m.withState state).mapChannel f :=
    fun state => congrArg (fun channel => { m with channel }) (withState m.channel state).symm
  have same : (m.mapChannel f).state = m.state := state m.channel
  unfold launched
  rw [same, moved]
  cases m.state <;> rfl

theorem launched_fed (m : Machine) (words : List Word) : (m.fed words).launched = m.launched.fed words :=
  launched_mapChannel (f := fun c => { c with input := c.input ++ words }) (fun _ => rfl) (fun _ _ => rfl) m

theorem launched_holding (m : Machine) (words : List Word) : (m.holding words).launched = m.launched.holding words :=
  launched_mapChannel (f := fun c => { c with output := words.toArray ++ c.output }) (fun _ => rfl) (fun _ _ => rfl) m

theorem launched_drained (m : Machine) : m.drained.launched = m.launched.drained :=
  launched_mapChannel (f := fun c => { c with output := #[] }) (fun _ => rfl) (fun _ _ => rfl) m

theorem launched_config (m : Machine) : m.launched.config = m.config := by
  unfold launched
  cases m.state <;> rfl

theorem launched_timeout (m : Machine) : m.launched.channel.ioTimeout = m.channel.ioTimeout := by
  unfold launched
  cases m.state <;> rfl

theorem launched_output (m : Machine) : m.launched.output = m.output := by
  unfold launched
  cases m.state <;> rfl

theorem launched_outputCount (m : Machine) : m.launched.outputCount = m.outputCount := by
  unfold launched
  cases m.state <;> rfl

/-- Resuming a machine that is not at rest is running it launched. -/
theorem resume_eq_execute {m : Machine} (live : m.state.isTerminal = false) :
    ∃ log, ∀ fuel, m.resume fuel = execute fuel m.launched log := by
  unfold resume launched
  cases state : m.state with
  | initialising =>
    refine ⟨#[.started m.name m.memory.size], fun fuel => ?_⟩
    have moved : m.channel.transition? .initialising .running =
        some { m.channel with state := .running } := if_pos state
    simp only [run, start, moved]
    rfl
  | running => exact ⟨#[], fun fuel => rfl⟩
  | awaitingInput =>
    refine ⟨#[.resumed m.name m.ip], fun fuel => ?_⟩
    have moved : m.channel.transition? .awaitingInput .running =
        some { m.channel with state := .running } := if_pos state
    simp only [moved]
    rfl
  | ended | halted =>
    rw [state] at live
    cases live

theorem returns_resume_iff {m n : Machine} {result : Except Failure RunState} (live : m.state.isTerminal = false) :
    Returns (m.resume ·) result n ↔ Runs m.launched result n := by
  obtain ⟨log, same⟩ := resume_eq_execute live
  constructor
  · rintro ⟨fuel, events, resumed⟩
    exact runs_of_execute ((same fuel).symm.trans resumed)
  · intro run
    obtain ⟨bound, events, found⟩ := run.execute_eventually log
    exact ⟨bound, events, (same bound).trans (found bound (Nat.le_refl bound))⟩

/-- A new machine is run as it is resumed. -/
theorem returns_run_iff {m n : Machine} {result : Except Failure RunState} (made : m.state = .initialising) :
    Returns (m.run ·) result n ↔ Runs m.launched result n := by
  have same : ∀ fuel, m.resume fuel = m.run fuel := by
    intro fuel
    unfold resume
    rw [made]
  simp only [← same]
  exact returns_resume_iff (by rw [made]; rfl)

theorem returns_fed_iff {m n : Machine} {words : List Word} {result : Except Failure RunState}
    (live : m.state.isTerminal = false) :
    Returns ((m.fed words).resume ·) result n ↔ Runs (m.launched.fed words) result n := by
  have live' : (m.fed words).state.isTerminal = false := live
  rw [← launched_fed]
  exact returns_resume_iff live'

/-- One step of a machine that is not at rest is a cycle of it launched. -/
theorem step_of_live {m : Machine} (live : m.state.isTerminal = false) :
    m.step.result = m.launched.cycle.result ∧ m.step.machine = m.launched.cycle.machine := by
  unfold step launched
  cases state : m.state with
  | initialising =>
    have moved : m.channel.transition? .initialising .running =
        some { m.channel with state := .running } := if_pos state
    simp only [start, moved]
    exact ⟨rfl, rfl⟩
  | running => exact ⟨rfl, rfl⟩
  | awaitingInput =>
    have moved : m.channel.transition? .awaitingInput .running =
        some { m.channel with state := .running } := if_pos state
    simp only [moved]
    exact ⟨rfl, rfl⟩
  | ended | halted =>
    rw [state] at live
    cases live

theorem step_of_terminal {m : Machine} (atRest : m.state.isTerminal) :
    m.step = m.answer (.error (m.invalidState .step)) := by
  unfold step
  cases state : m.state with
  | initialising | running | awaitingInput =>
    rw [state] at atRest
    cases atRest
  | ended | halted => rfl

theorem resume_of_terminal {m : Machine} (atRest : m.state.isTerminal) (fuel : Nat) :
    m.resume fuel = some (m.answer (.error (m.invalidState .resume))) := by
  unfold resume
  cases state : m.state with
  | initialising | running | awaitingInput =>
    rw [state] at atRest
    cases atRest
  | ended | halted => rfl

/-- What feeding, resuming and taking all output comes to, by the run in between. -/
def handsOver : Except Failure RunState → Machine → Except Failure (List Word) × Machine
  | .ok _, m => (.ok m.output, m.drained)
  | .error failure, m => (.error failure, m)

theorem feedAll_of_live {c : Channel} (live : c.state.isTerminal = false) (words : List Word) :
    c.feedAll words = .ok { c with input := c.input ++ words } := by
  unfold Channel.feedAll
  rw [live]
  rfl

theorem feedAll_of_terminal {c : Channel} (atRest : c.state.isTerminal) {words : List Word} (some : words ≠ []) :
    c.feedAll words = .error (.invalidState c.program .feed c.state) :=
  if_pos (by simp [atRest, some])

/-- Feeding and running a machine that is not at rest is resuming it fed, and handing its output over. -/
theorem runWith_of_live {m : Machine} (live : m.state.isTerminal = false) (fuel : Nat) (words : List Word) :
    m.runWith fuel words =
      (resume fuel (m.fed words)).map fun o =>
        ⟨(handsOver o.result o.machine).1, (handsOver o.result o.machine).2, o.events⟩ := by
  have fed : ({ m with channel := { m.channel with input := m.channel.input ++ words } } : Machine) = m.fed words := rfl
  unfold runWith
  rw [feedAll_of_live live]
  simp only [fed]
  rcases resume fuel (m.fed words) with _ | ⟨ran, left, events⟩
  · rfl
  · cases ran <;> rfl

theorem returns_runWith_iff {m n : Machine} {words : List Word} {result : Except Failure (List Word)}
    (live : m.state.isTerminal = false) :
    Returns (m.runWith · words) result n ↔
      ∃ ran left, Runs (m.launched.fed words) ran left ∧ (result, n) = handsOver ran left := by
  constructor
  · rintro ⟨fuel, events, returned⟩
    simp only [runWith_of_live live] at returned
    obtain ⟨⟨ran, left, more⟩, outcome, handed⟩ := Option.map_eq_some_iff.mp returned
    cases handed
    exact ⟨ran, left, (returns_fed_iff live).mp ⟨fuel, _, outcome⟩, rfl⟩
  · rintro ⟨ran, left, run, handed⟩
    obtain ⟨fuel, events, outcome⟩ := (returns_fed_iff live).mpr run
    obtain ⟨rfl, rfl⟩ := Prod.mk.inj handed
    refine ⟨fuel, events, ?_⟩
    simp only [runWith_of_live live]
    exact Option.map_eq_some_iff.mpr ⟨_, outcome, rfl⟩

end Machine

end IntegerMachine
