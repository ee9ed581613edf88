import IntegerMachine.Proofs.Execution

/-!
# Suspension

Whether a program is fed all its input at once or piece by piece, each time it has run out of it, makes no
difference to what it does (`runWith_in_turn`). A run on more input goes on where the run on less input
suspended (`Runs.fed_of_starved`), and is the same run if that one never suspended (`Runs.fed_of_served`). A machine
that is not fed at all suspends again, as it is (`resume_again`).
-/
namespace IntegerMachine

namespace Machine

/-- Two machines that have got equally far: registers, memory and counts agree. -/
structure SameProgress (m m' : Machine) : Prop where
  memory : m'.memory = m.memory
  ip : m'.ip = m.ip
  relativeBase : m'.relativeBase = m.relativeBase
  steps : m'.steps = m.steps
  outputCount : m'.outputCount = m.outputCount
  lastOutput : m'.lastOutput = m.lastOutput

theorem SameProgress.mapChannel {m m' : Machine} (same : SameProgress m m') (f : Channel → Channel) :
    SameProgress (m.mapChannel f) m' :=
  ⟨same.memory, same.ip, same.relativeBase, same.steps, same.outputCount, same.lastOutput⟩

/-! ## Runs on more output and on more input -/

section
variable {m n : Machine} {result : Except Failure RunState}

theorem runs_cycle_iff {step : Step} (running : m.state = .running) (done : m.cycle.result = .ok step) :
    Runs m result n ↔ Runs m.cycle.machine result n := by
  refine ⟨fun run => ?_, .cycle running done⟩
  cases run with
  | rest stopped => exact absurd running stopped
  | fault _ failed => cases failed.symm.trans done
  | cycle _ _ later => exact later

theorem Runs.holding (run : Runs m result n) (words : List Word) : Runs (m.holding words) result (n.holding words) := by
  induction run with
  | rest stopped => exact .rest stopped
  | @fault m failure running failed =>
    have framed := m.cycle_holding words
    have fault : Runs (m.holding words) (.error failure) (m.holding words).cycle.machine :=
      .fault running (by rw [framed]; exact failed)
    rw [framed] at fault
    exact fault
  | @cycle m n step result running done later ih =>
    have framed := m.cycle_holding words
    have advanced : (m.holding words).cycle.result = .ok step := by rw [framed]; exact done
    exact .cycle running advanced (by rw [framed]; exact ih)

theorem runs_holding_iff {words : List Word} {k : Machine} :
    Runs (m.holding words) result k ↔ ∃ n, Runs m result n ∧ k = n.holding words := by
  constructor
  · intro run
    generalize held : m.holding words = start at run
    induction run generalizing m with
    | rest stopped =>
      subst held
      exact ⟨m, .rest stopped, rfl⟩
    | fault running failed =>
      subst held
      rw [cycle_holding] at failed ⊢
      exact ⟨_, .fault running failed, rfl⟩
    | cycle running done later ih =>
      subst held
      obtain ⟨n, run, rfl⟩ := ih (m := m.cycle.machine) (by rw [cycle_holding]; rfl)
      rw [cycle_holding] at done
      exact ⟨n, .cycle running done run, rfl⟩
  · rintro ⟨n, run, rfl⟩
    exact run.holding words

/-- A run on more input goes on where the run on less input suspended. -/
theorem Runs.fed_of_starved (suspends : m.Suspends) (running : m.state = .running)
    (run : Runs m (.ok .awaitingInput) n) (words : List Word) {result : Except Failure RunState} {k : Machine} :
    Runs (m.fed words) result k ↔ Runs (n.launched.fed words) result k := by
  generalize suspended : (Except.ok RunState.awaitingInput : Except Failure RunState) = starved at run
  induction run with
  | rest stopped => exact absurd running stopped
  | fault => cases suspended
  | @cycle m n step starved _ done later ih =>
    rcases cycle_cooperative suspends.mode running with
      ⟨advanced, state⟩ | ⟨-, -, starving, -⟩ | ⟨-, state⟩ | ⟨⟨text, fault, failed⟩, -⟩
    · have served := served_of_result suspends running (by rw [advanced]; exact nofun)
      have framed := cycle_fed words served
      have more : (m.fed words).cycle.result = .ok step := by rw [framed]; exact done
      rw [← ih (suspends.of_config m.cycle_follows.config) state suspended,
        runs_cycle_iff (m := m.fed words) running more, framed]
      rfl
    · obtain ⟨events, starved⟩ := cycle_of_starving suspends running starving
      rw [starved] at later
      have same := (later.unique (.rest (m := m.withState .awaitingInput) nofun)).2
      subst same
      rw [launched_of_suspended running]
    · subst suspended
      have resting : (.ok .awaitingInput : Except Failure RunState) = .ok m.cycle.machine.state :=
        (later.unique (.rest (by rw [state]; exact nofun))).1
      rw [state] at resting
      cases resting
    · cases failed.symm.trans done

/-- A run that does not suspend is not changed by more input. -/
theorem Runs.fed_of_served (suspends : m.Suspends) (run : Runs m result n) (served : result ≠ .ok .awaitingInput)
    (words : List Word) : Runs (m.fed words) result (n.fed words) := by
  induction run with
  | rest stopped => exact .rest stopped
  | @fault m failure running failed =>
    have framed := cycle_fed words (served_of_result suspends running (by rw [failed]; exact nofun))
    have fault : Runs (m.fed words) (.error failure) (m.fed words).cycle.machine :=
      .fault running (by rw [framed]; exact failed)
    rw [framed] at fault
    exact fault
  | @cycle m n step result running done later ih =>
    have unstarved : ¬ m.Starving := by
      intro starving
      obtain ⟨events, starved⟩ := cycle_of_starving suspends running starving
      rw [starved] at later
      exact served (later.unique (.rest (m := m.withState .awaitingInput) nofun)).1
    have framed := cycle_fed words unstarved
    have more : (m.fed words).cycle.result = .ok step := by rw [framed]; exact done
    refine .cycle running more ?_
    rw [framed]
    exact ih (suspends.of_config m.cycle_follows.config) served

theorem Runs.of_starving (suspends : m.Suspends) (running : m.state = .running) (starving : m.Starving) :
    Runs m (.ok .awaitingInput) (m.withState .awaitingInput) := by
  obtain ⟨events, starved⟩ := cycle_of_starving suspends running starving
  have rest : Runs (m.withState .awaitingInput) (.ok .awaitingInput) (m.withState .awaitingInput) := .rest nofun
  refine .cycle running (by rw [starved]) ?_
  rw [starved]
  exact rest

/-- A machine whose run on more input comes to an end comes to one without that, at the latest where it lacks input. -/
theorem Runs.exists_of_fed (suspends : m.Suspends) {words : List Word} (run : Runs (m.fed words) result n) :
    ∃ result n, Runs m result n := by
  generalize fed : m.fed words = start at run
  induction run generalizing m with
  | rest stopped =>
    subst fed
    exact ⟨_, m, .rest stopped⟩
  | @fault start failure running failed =>
    subst fed
    by_cases starving : m.Starving
    · exact ⟨_, _, .of_starving suspends running starving⟩
    · rw [cycle_fed words starving] at failed
      exact ⟨_, _, .fault running failed⟩
  | @cycle start n step result running done later ih =>
    subst fed
    by_cases starving : m.Starving
    · exact ⟨_, _, .of_starving suspends running starving⟩
    · have framed := cycle_fed words starving
      rw [framed] at done
      obtain ⟨result', n', run⟩ := ih (suspends.of_config m.cycle_follows.config) (by rw [framed]; rfl)
      exact ⟨result', n', .cycle running done run⟩

/-- If the run on more input does not fail, neither does the one without that. -/
theorem Runs.exists_ok_of_fed (suspends : m.Suspends) {words : List Word} {state : RunState}
    (run : Runs (m.fed words) (.ok state) n) : ∃ state n, Runs m (.ok state) n := by
  obtain ⟨failure | state', left, run'⟩ := run.exists_of_fed suspends
  · cases (run.unique (run'.fed_of_served suspends nofun words)).1
  · exact ⟨state', left, run'⟩

/-- A run that does not fail has ended the program or awaits input. -/
theorem Runs.state_of_ok (mode : m.config.mode = .cooperative) (running : m.state = .running) {state : RunState}
    (run : Runs m (.ok state) n) : state = .ended ∨ state = .awaitingInput := by
  generalize came : (Except.ok state : Except Failure RunState) = result at run
  induction run with
  | rest stopped => exact absurd running stopped
  | fault => cases came
  | @cycle m n step result _ done later ih =>
    have rests (stopped : m.cycle.machine.state ≠ .running) : state = m.cycle.machine.state :=
      Except.ok.inj (came.trans (later.unique (.rest stopped)).1)
    rcases cycle_cooperative mode running with
      ⟨-, state⟩ | ⟨-, suspended, -⟩ | ⟨-, ended⟩ | ⟨⟨text, fault, failed⟩, -⟩
    · exact ih (m.cycle_follows.config ▸ mode) state came
    · rw [suspended] at rests
      exact .inr (rests nofun)
    · rw [ended] at rests
      exact .inl (rests nofun)
    · cases failed.symm.trans done

/-- Output that has been taken before a machine is launched again is missing afterwards, and nothing else. -/
theorem launched_fed_eq_holding (m : Machine) (words : List Word) :
    m.launched.fed words = (m.drained.launched.fed words).holding m.output := by
  conv => lhs; rw [← m.holding_output_drained, launched_holding]
  rfl

/-- A failing run has halted the machine. -/
theorem Runs.state_of_error {failure : Failure} (mode : m.config.mode = .cooperative)
    (run : Runs m (.error failure) n) : n.state = .halted := by
  generalize failed : (Except.error failure : Except Failure RunState) = result at run
  induction run with
  | rest => cases failed
  | fault running struck => exact (cycle_failed mode running struck).2
  | @cycle m n step result _ _ _ ih => exact ih (m.cycle_follows.config ▸ mode) failed

/-- A cooperative machine only fails by a fault of its program. -/
theorem Runs.faulted_of_error {failure : Failure} (mode : m.config.mode = .cooperative)
    (run : Runs m (.error failure) n) : ∃ ip text fault, failure = .faulted m.name ip text fault := by
  generalize failed : (Except.error failure : Except Failure RunState) = result at run
  induction run with
  | rest => cases failed
  | @fault m failure' running struck =>
    cases failed
    obtain ⟨⟨text, fault, rfl⟩, -⟩ := cycle_failed mode running struck
    exact ⟨m.ip, text, fault, rfl⟩
  | @cycle m n step result _ _ _ ih =>
    have config := m.cycle_follows.config
    obtain ⟨ip, text, fault, rfl⟩ := ih ((congrArg Config.mode config).trans mode) failed
    exact ⟨ip, text, fault, by rw [name, name, config]⟩

end

/-! ## Waiting again -/

section
variable {m n left : Machine} {fuel : Nat} {events : Array Event}

/-- A machine that has been suspended lacks input. -/
theorem Runs.starving (suspends : m.Suspends) (running : m.state = .running)
    (run : Runs m (.ok .awaitingInput) n) : n.Starving := by
  generalize suspended : (Except.ok RunState.awaitingInput : Except Failure RunState) = result at run
  induction run with
  | rest stopped => exact absurd running stopped
  | fault => cases suspended
  | @cycle m n step result _ done later ih =>
    have rests (stopped : m.cycle.machine.state ≠ .running) : .awaitingInput = m.cycle.machine.state :=
      Except.ok.inj (suspended.trans (later.unique (.rest stopped)).1)
    rcases cycle_cooperative suspends.mode running with
      ⟨-, state⟩ | ⟨-, -, starving, -⟩ | ⟨-, state⟩ | ⟨⟨text, fault, failed⟩, -⟩
    · exact ih (suspends.of_config m.cycle_follows.config) state suspended
    · obtain ⟨events, starved⟩ := cycle_of_starving suspends running starving
      rw [starved] at later
      obtain ⟨-, rfl⟩ := later.unique (.rest (m := m.withState .awaitingInput) nofun)
      exact starving
    · rw [state] at rests
      cases rests nofun
    · cases failed.symm.trans done

/-- To find that input is missing takes a cycle, and to answer that takes another look at the state. -/
theorem exists_bound_of_resumed (resumed : m.resume fuel = some ⟨.ok .awaitingInput, left, events⟩)
    (live : m.state.isTerminal = false) : ∃ fuel', fuel = fuel' + 2 := by
  obtain ⟨log, same⟩ := resume_eq_execute live
  rw [same] at resumed
  rcases fuel with _ | _ | fuel
  · cases resumed
  · rw [execute_of_running (launched_running live)] at resumed
    cases cycled : m.launched.cycle.result with
    | ok step =>
      rw [cycled] at resumed
      cases resumed
    | error failure =>
      rw [cycled] at resumed
      cases resumed
  · exact ⟨fuel, rfl⟩

/-- A machine that lacks input comes back in its first cycle. -/
theorem execute_of_starving (suspends : m.Suspends) (running : m.state = .running) (starving : m.Starving)
    (fuel : Nat) (log : Array Event) :
    ∃ events, execute (fuel + 2) m log = some ⟨.ok .awaitingInput, m.withState .awaitingInput, events⟩ := by
  obtain ⟨more, starved⟩ := cycle_of_starving suspends running starving
  have executed := execute_of_running running (fuel + 1) log
  simp only [starved] at executed
  have stopped : (m.withState .awaitingInput).state ≠ .running := nofun
  exact ⟨_, executed.trans (execute_of_stopped stopped fuel (log ++ more))⟩

/-- A machine that has come back awaiting input and had its output taken comes back at once, as it is, when it is
    resumed without any input. -/
theorem resume_again (suspends : m.Suspends) (live : m.state.isTerminal = false)
    (resumed : m.resume fuel = some ⟨.ok .awaitingInput, left, events⟩) :
    ∃ again, left.drained.resume fuel = some ⟨.ok .awaitingInput, left.drained, again⟩ := by
  have run := (returns_resume_iff live).mp ⟨fuel, events, resumed⟩
  have awaiting : left.drained.state = .awaitingInput := run.state_ok.1
  have waits : left.drained.state.isTerminal = false := by
    rw [awaiting]
    rfl
  have config : left.drained.launched.config = m.config :=
    left.drained.launched_config.trans (run.follows.config.trans m.launched_config)
  have launched := launched_of_awaiting awaiting
  have missing := run.starving (suspends.of_config m.launched_config) (launched_running live)
  have starving : left.drained.launched.Starving := by
    rw [launched]
    exact missing
  have back : left.drained.launched.withState .awaitingInput = left.drained := by
    rw [launched]
    change left.drained.withState .awaitingInput = left.drained
    rw [← awaiting, withState_state]
  obtain ⟨fuel, rfl⟩ := exists_bound_of_resumed resumed live
  obtain ⟨log, same⟩ := resume_eq_execute waits
  obtain ⟨again, executed⟩ :=
    execute_of_starving (suspends.of_config config) (launched_running waits) starving fuel log
  rw [back] at executed
  exact ⟨again, (same (fuel + 2)).trans executed⟩

end

/-! ## Feeding in turn -/

/-- Calls that feed a machine the chunks in turn and run it, each of which comes back with an answer and
    leaves the machine awaiting input. -/
inductive FedInTurn : Machine → List (List Word) → List (Except Failure (List Word)) → Machine → Prop
  | done {m : Machine} : FedInTurn m [] [] m
  | call {m between n : Machine} {chunk : List Word} {chunks : List (List Word)}
      {answer : Except Failure (List Word)} {answers : List (Except Failure (List Word))}
      (returned : Returns (m.runWith · chunk) answer between) (awaiting : between.state = .awaitingInput)
      (later : FedInTurn between chunks answers n) : FedInTurn m (chunk :: chunks) (answer :: answers) n

/-- What a call answers and leaves after others have answered `earlier`, beside what one call does in place
    of them all. -/
def Continues (earlier : List Word) (result : Except Failure (List Word)) (n : Machine)
    (result' : Except Failure (List Word)) (n' : Machine) : Prop :=
  (match result, result' with
    | .ok words, .ok words' => earlier ++ words = words'
    | .error failure, .error failure' => failure = failure' ∧ earlier ++ n.output = n'.output
    | _, _ => False) ∧
  SameProgress n n' ∧ n'.state = n.state ∧ n'.channel.input = n.channel.input

namespace FedInTurn
variable {m n : Machine} {chunks : List (List Word)} {answers : List (Except Failure (List Word))}

theorem live (fed : FedInTurn m chunks answers n) (live : m.state.isTerminal = false) :
    n.state.isTerminal = false := by
  induction fed with
  | done => exact live
  | call _ awaiting _ ih => exact ih (by rw [awaiting]; rfl)

/-- After chunks fed in turn, a run on further words is a run from the start on all words together, but for
    the output taken in between. -/
theorem runs_iff (fed : FedInTurn m chunks answers n) (suspends : m.Suspends) (live : m.state.isTerminal = false) :
    ∃ taken : List (List Word), answers = taken.map .ok ∧ n.config = m.config ∧ ∀ last result k,
      Runs (m.launched.fed (chunks.flatten ++ last)) result k ↔
        ∃ left, Runs (n.launched.fed last) result left ∧ k = left.holding taken.flatten := by
  induction fed with
  | @done m =>
    refine ⟨[], rfl, rfl, fun last result k => ?_⟩
    constructor
    · intro run
      exact ⟨k, run, k.holding_nil.symm⟩
    · rintro ⟨left, run, rfl⟩
      rw [List.flatten_nil, holding_nil]
      exact run
  | @call m between n chunk chunks answer answers returned awaiting later ih =>
    obtain ⟨ran, left, run, handed⟩ := (returns_runWith_iff live).mp returned
    have launchedFed : (m.launched.fed chunk).Suspends := suspends.of_config m.launched_config
    have config : left.config = m.config := run.follows.config.trans m.launched_config
    rcases ran with failure | state
    · cases handed
      rw [run.state_of_error launchedFed.mode] at awaiting
      cases awaiting
    · cases handed
      obtain ⟨stopped, -⟩ := run.state_ok
      obtain rfl : state = .awaitingInput := stopped.symm.trans awaiting
      obtain ⟨taken, answered, config', split⟩ := ih (suspends.of_config config) (by rw [awaiting]; rfl)
      refine ⟨left.output :: taken, by rw [answered]; rfl, config'.trans config, fun last result k => ?_⟩
      rw [List.flatten_cons, List.append_assoc, ← fed_fed,
        run.fed_of_starved launchedFed (launched_running live), left.launched_fed_eq_holding, runs_holding_iff]
      constructor
      · rintro ⟨between, later, rfl⟩
        obtain ⟨left', run', rfl⟩ := (split last result between).mp later
        exact ⟨left', run', by rw [holding_holding, List.flatten_cons]⟩
      · rintro ⟨left', run', rfl⟩
        exact ⟨_, (split last result _).mpr ⟨left', run', rfl⟩, by rw [holding_holding, List.flatten_cons]⟩

end FedInTurn

/-- Suspension cannot be noticed. Let a machine that is not at rest be fed chunks of words in turn, and let it
    await input after each. Then each of the calls has answered with words, and a further call comes back
    exactly if a single call on all words does, in which case the two agree. -/
theorem runWith_in_turn {m n : Machine} (suspends : m.Suspends) (live : m.state.isTerminal = false)
    {chunks : List (List Word)} {answers : List (Except Failure (List Word))}
    (fed : FedInTurn m chunks answers n) (last : List Word) :
    ∃ taken : List (List Word), answers = taken.map .ok ∧
      ((∃ result k, Returns (n.runWith · last) result k) ↔
        ∃ result k, Returns (m.runWith · (chunks.flatten ++ last)) result k) ∧
      ∀ result k result' k', Returns (n.runWith · last) result k →
        Returns (m.runWith · (chunks.flatten ++ last)) result' k' →
          Continues taken.flatten result k result' k' := by
  obtain ⟨taken, answered, -, split⟩ := fed.runs_iff suspends live
  refine ⟨taken, answered, ?_, ?_⟩
  · constructor
    · rintro ⟨result, k, returned⟩
      obtain ⟨ran, left, run, -⟩ := (returns_runWith_iff (fed.live live)).mp returned
      exact ⟨_, _, (returns_runWith_iff live).mpr ⟨ran, _, (split last ran _).mpr ⟨left, run, rfl⟩, rfl⟩⟩
    · rintro ⟨result, k, returned⟩
      obtain ⟨ran, left, run, -⟩ := (returns_runWith_iff live).mp returned
      obtain ⟨left, run, -⟩ := (split last ran left).mp run
      exact ⟨_, _, (returns_runWith_iff (fed.live live)).mpr ⟨ran, left, run, rfl⟩⟩
  · intro result k result' k' returned returned'
    obtain ⟨ran, left, run, handed⟩ := (returns_runWith_iff (fed.live live)).mp returned
    obtain ⟨ran', left', run', handed'⟩ := (returns_runWith_iff live).mp returned'
    obtain ⟨left'', run'', rfl⟩ := (split last ran' left').mp run'
    obtain ⟨rfl, rfl⟩ := run.unique run''
    rcases ran with failure | state
    · cases handed
      cases handed'
      exact ⟨⟨rfl, (output_holding _ _).symm⟩, ⟨rfl, rfl, rfl, rfl, rfl, rfl⟩, rfl, rfl⟩
    · cases handed
      cases handed'
      exact ⟨(output_holding _ _).symm, ⟨rfl, rfl, rfl, rfl, rfl, rfl⟩, rfl, rfl⟩

/-- A machine that writes every word it reads. -/
def echo : Machine := ofProgram [3, 7, 4, 7, 1105, 1, 0] {}

theorem runWith_in_turn_echo :
    ∃ n k k', echo.Suspends ∧ echo.state.isTerminal = false ∧
      FedInTurn echo [[5], [6, 7]] [.ok [5], .ok [6, 7]] n ∧
      Returns (n.runWith · [8]) (.ok [8]) k ∧ Returns (echo.runWith · [5, 6, 7, 8]) (.ok [5, 6, 7, 8]) k' ∧
      Continues [5, 6, 7] (.ok [8]) k (.ok [5, 6, 7, 8]) k' := by
  have suspends : echo.Suspends := ⟨rfl, rfl⟩
  obtain ⟨n, fed, k, last⟩ : ∃ n, FedInTurn echo [[5], [6, 7]] [.ok [5], .ok [6, 7]] n ∧
      ∃ k, Returns (n.runWith · [8]) (.ok [8]) k :=
    ⟨_, .call ⟨20, _, rfl⟩ rfl (.call ⟨20, _, rfl⟩ rfl .done), _, 20, _, rfl⟩
  obtain ⟨k', all⟩ : ∃ k', Returns (echo.runWith · [5, 6, 7, 8]) (.ok [5, 6, 7, 8]) k' := ⟨_, 20, _, rfl⟩
  obtain ⟨taken, answered, -, agree⟩ := runWith_in_turn suspends rfl fed [8]
  have same : taken = [[5], [6, 7]] := (List.map_inj_right fun _ _ => Except.ok.inj).mp answered.symm
  subst same
  exact ⟨n, k, k', suspends, rfl, fed, last, all, agree _ k _ k' last all⟩

end Machine

end IntegerMachine
