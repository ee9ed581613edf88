import IntegerMachine.Proofs.Bounds
import IntegerMachine.Proofs.Interleaving
import Mathlib.Data.List.Forall2

/-!
# The modes of a machine

A machine that needs a word where none is queued suspends if it is cooperative, and waits if it is in worker mode.
Driven by its caller alone it waits in vain: the call fails, and the machine is left at its input instruction as if it
had been suspended, but running (`worker_cycle_of_starving`). Apart from that the mode makes no difference: whatever
calls are made one after another on a machine and on its channel, in either mode they are answered alike and leave
machines that differ in nothing else (`session_modes`).
-/
namespace IntegerMachine

/-- The state that a machine in worker mode has where a cooperative one has this state: it keeps running. -/
def RunState.awake : RunState → RunState
  | .awaitingInput => .running
  | state => state

namespace RunState

theorem awake_of_ne {state : RunState} (other : state ≠ .awaitingInput) : state.awake = state := by
  cases state with
  | awaitingInput => exact absurd rfl other
  | initialising | running | ended | halted => rfl

theorem awake_of_terminal {state : RunState} (atRest : state.isTerminal) : state.awake = state := by
  refine awake_of_ne ?_
  rintro rfl
  cases atRest

theorem isTerminal_awake (state : RunState) : state.awake.isTerminal = state.isTerminal := by
  cases state <;> rfl

end RunState

/-- The channel in the state of a machine in worker mode. -/
def Channel.awake (c : Channel) : Channel := { c with state := c.state.awake }

/-! ## Calls and what they answer -/

/-- What a call answers. -/
inductive Reply where
  | done
  | state (state : RunState)
  | step (step : Step)
  | flag (flag : Bool)
  | word (word : Word)
  | word? (word : Option Word)
  | words (words : List Word)
  deriving DecidableEq

/-- The calls on a channel. -/
inductive ChannelCall where
  | feed (word : Word)
  | feedAll (words : List Word)
  | feedText (text : String)
  | tryConsume
  | consume
  | consumeUpTo (n : Nat)
  | awaitOutput (n : Nat)
  | drain
  | halt

/-- The calls by which a party drives a machine and talks to it. -/
inductive Request where
  | resume
  | step
  | halt (silent : Bool)
  | channel (call : ChannelCall)

/-- What a call that feeds answers. -/
def Channel.accepts (c : Channel) : Except Failure Channel → Except Failure Reply × Channel
  | .ok c => (.ok .done, c)
  | .error failure => (.error failure, c)

/-- What a call on a channel answers, and the channel it leaves. -/
def ChannelCall.answer (c : Channel) : ChannelCall → Except Failure Reply × Channel
  | .feed word => c.accepts (c.feed word)
  | .feedAll words => c.accepts (c.feedAll words)
  | .feedText text => c.accepts (c.feedText text)
  | .tryConsume => (.ok (.word? c.tryConsume.1), c.tryConsume.2)
  | .consume => (c.consume.1.map .word, c.consume.2)
  | .consumeUpTo n => (.ok (.words (c.consumeUpTo n).1), (c.consumeUpTo n).2)
  | .awaitOutput n => ((c.awaitOutput n).1.map .words, (c.awaitOutput n).2)
  | .drain => (.ok (.words c.drain.1), c.drain.2)
  | .halt => (.ok (.flag c.halt.1), c.halt.2)

/-- What a call answers, and the machine it leaves. A call that drives the machine is given a bound on its cycles. -/
def Request.answer (fuel : Nat) (m : Machine) : Request → Option (Except Failure Reply × Machine)
  | .resume => (m.resume fuel).map fun o => (o.result.map .state, o.machine)
  | .step => some (m.step.result.map .step, m.step.machine)
  | .halt silent => some ((m.halt silent).result.map .flag, (m.halt silent).machine)
  | .channel call => some ((call.answer m.channel).1, { m with channel := (call.answer m.channel).2 })

/-- Calls made one after another, with what each answers and the machine it leaves. -/
inductive Session : Machine → List Request → List (Except Failure Reply × Machine) → Prop
  | done (m : Machine) : Session m [] []
  | call {m left : Machine} {request : Request} {requests : List Request} {reply : Except Failure Reply}
      {later : List (Except Failure Reply × Machine)} {fuel : Nat}
      (answered : request.answer fuel m = some (reply, left)) (goesOn : Session left requests later) :
      Session m (request :: requests) ((reply, left) :: later)

/-- The outcomes of calls made one after another, if all of them come back within the same bound. -/
def Request.answers (fuel : Nat) : Machine → List Request → Option (List (Except Failure Reply × Machine))
  | _, [] => some []
  | m, request :: requests =>
    match request.answer fuel m with
    | none => none
    | some (reply, left) => (answers fuel left requests).map ((reply, left) :: ·)

theorem Session.of_answers {fuel : Nat} {m : Machine} {requests : List Request}
    {outcomes : List (Except Failure Reply × Machine)} (answered : Request.answers fuel m requests = some outcomes) :
    Session m requests outcomes := by
  induction requests generalizing m outcomes with
  | nil =>
    cases answered
    exact .done m
  | cons request requests ih =>
    unfold Request.answers at answered
    cases first : request.answer fuel m with
    | none =>
      rw [first] at answered
      cases answered
    | some outcome =>
      rw [first] at answered
      obtain ⟨later, rest, rfl⟩ := Option.map_eq_some_iff.mp answered
      exact .call first (ih rest)

/-! ## Channels -/

namespace Channel

theorem feedAll_awake (c : Channel) (words : List Word) : c.awake.feedAll words = (c.feedAll words).map awake := by
  unfold feedAll
  simp only [awake, RunState.isTerminal_awake]
  by_cases refused : c.state.isTerminal && !words.isEmpty
  · rw [if_pos refused, if_pos refused, RunState.awake_of_terminal (Bool.and_eq_true_iff.mp refused).1]
    rfl
  · rw [if_neg refused, if_neg refused]
    rfl

theorem starved_awake (c : Channel) (queue : Queue) : c.awake.starved queue = c.starved queue := by
  unfold starved
  simp only [awake, RunState.isTerminal_awake]
  by_cases atRest : c.state.isTerminal
  · rw [if_pos atRest, if_pos atRest, RunState.awake_of_terminal atRest]
  · rw [if_neg atRest, if_neg atRest]
    rfl

theorem halt_awake (c : Channel) : c.awake.halt = (c.halt.1, c.halt.2.awake) := by
  unfold halt
  simp only [awake, RunState.isTerminal_awake]
  split <;> rfl

theorem queued_awake (c : Channel) (queue : Queue) : c.awake.queued queue = c.queued queue := by
  cases queue <;> rfl

theorem withQueued_awake (c : Channel) (queue : Queue) (words : List Word) :
    c.awake.withQueued queue words = (c.withQueued queue words).awake := by
  cases queue <;> rfl

theorem pop?_awake (c : Channel) (queue : Queue) :
    c.awake.pop? queue = (c.pop? queue).map fun (word, c) => (word, c.awake) := by
  unfold pop?
  rw [queued_awake]
  cases c.queued queue with
  | nil => rfl
  | cons word rest =>
    simp only [withQueued_awake]
    rfl

theorem ioTimeout_awake (c : Channel) : c.awake.ioTimeout = c.ioTimeout := rfl

theorem wait_awake (c : Channel) (queue : Queue) : c.awake.wait queue = ((c.wait queue).1, (c.wait queue).2.awake) := by
  unfold wait
  rw [pop?_awake, starved_awake, ioTimeout_awake]
  split
  · cases c.pop? queue <;> rfl
  · rfl

theorem awaitOutput_awake (c : Channel) (n : Nat) :
    c.awake.awaitOutput n = ((c.awaitOutput n).1, (c.awaitOutput n).2.awake) := by
  unfold awaitOutput
  simp only [queued_awake, withQueued_awake, starved_awake, ioTimeout_awake]
  split
  · split <;> rfl
  · rfl

theorem accepts_awake (c : Channel) (fed : Except Failure Channel) :
    c.awake.accepts (fed.map awake) = ((c.accepts fed).1, (c.accepts fed).2.awake) := by
  cases fed <;> rfl

end Channel

/-- A call on a channel is answered alike in both modes. -/
theorem ChannelCall.answer_awake (call : ChannelCall) (c : Channel) :
    call.answer c.awake = ((call.answer c).1, (call.answer c).2.awake) := by
  cases call with
  | feed | feedAll | feedText =>
    simp only [answer, Channel.feed, Channel.feedText, Channel.feedAll_awake, Channel.accepts_awake]
  | tryConsume =>
    unfold answer Channel.tryConsume
    rw [Channel.pop?_awake]
    cases c.pop? .output <;> rfl
  | consume => simp only [answer, Channel.consume, Channel.wait_awake]
  | consumeUpTo | drain => rfl
  | awaitOutput n => simp only [answer, Channel.awaitOutput_awake]
  | halt => simp only [answer, Channel.halt_awake]

namespace Machine
variable {m m' n : Machine}

/-! ## Cycles -/

/-- The machine in worker mode. -/
def inWorkerMode (m : Machine) : Machine := m.asWorker m.channel

/-- The machine in worker mode that is driven as a cooperative one is, in the state that it has then. -/
def counterpart (m : Machine) : Machine := m.asWorker m.channel.awake

theorem counterpart_of_ne (other : m.state ≠ .awaitingInput) : m.counterpart = m.inWorkerMode := by
  have state : m.channel.state.awake = m.channel.state := RunState.awake_of_ne other
  have same : m.channel.awake = m.channel := by
    unfold Channel.awake
    rw [state]
  unfold counterpart inWorkerMode
  rw [same]

/-- The mode only matters to an input instruction that finds no word. -/
theorem cycle_inWorkerMode (served : ¬ m.Starving) : m.inWorkerMode.cycle = m.cycle.map inWorkerMode :=
  cycle_reconfigured (g := fun config => { config with mode := .worker }) ⟨fun _ => rfl, fun _ => rfl⟩ served

/-- A machine in worker mode that starves fails, and is left as it was. The wait times out, or breaks down if it has no
    deadline. -/
theorem worker_cycle_of_starving (mode : m.config.mode = .worker) (unserved : m.config.defaultInput = none)
    (running : m.state = .running) (starving : m.Starving) :
    ∃ events, m.cycle = ⟨.error (if m.channel.ioTimeout.isTimable then m.channel.timedOut .input
      else .beyondCapacity m.channel.program), m, events⟩ := by
  obtain ⟨⟨dest, fetched⟩, empty⟩ := starving
  have evaluated : (Instruction.input dest).evaluate m.relativeBase m.memory = .ok (.input dest) m.memory := rfl
  have dispatched := dispatch_of_evaluated fetched evaluated
  let behind : Machine := { m with ip := m.ip + (Instruction.input dest).size }
  have starved : m.channel.starved .input = m.channel.timedOut .input := by
    refine if_neg ?_
    rw [show m.channel.state = .running from running]
    exact nofun
  have waited : behind.readInput = (.error (m.channel.denial .input), behind) := by
    have missing := Channel.pop?_input_eq_none.mpr empty
    by_cases timed : m.channel.ioTimeout.isTimable
    · simp only [behind, readInput, missing, unserved, mode, Channel.wait_of_none missing, Channel.denial, if_pos timed,
        starved, Channel.timedOut]
    · simp only [behind, readInput, missing, unserved, mode, Channel.wait_of_none missing, Channel.denial, if_neg timed]
  refine ⟨m.traceEvents (.input dest), ?_⟩
  rw [cycle_of_dispatched dispatched, ← starved]
  exact settle_of_waited rfl waited _

/-- A machine that suspends when it needs a word, and that could wait for one. -/
structure Patient (m : Machine) : Prop extends m.Suspends where
  timed : m.channel.ioTimeout.isTimable

theorem Patient.of_same (patient : m.Patient) (config : m'.config = m.config)
    (timeout : m'.channel.ioTimeout = m.channel.ioTimeout) : m'.Patient where
  toSuspends := patient.toSuspends.of_config config
  timed := by
    rw [timeout]
    exact patient.timed

theorem Patient.launched (patient : m.Patient) : m.launched.Patient :=
  patient.of_same m.launched_config m.launched_timeout

theorem Patient.cycle (patient : m.Patient) : m.cycle.machine.Patient :=
  patient.of_same m.cycle_follows.config m.cycle_follows.timeout

/-- A cycle in either mode: the machine starves, which a cooperative one answers by suspending and one in worker mode by
    a timeout, or both do the same. -/
theorem cycle_modes (patient : m.Patient) (running : m.state = .running) :
    (m.cycle.result = .ok .suspended ∧ m.cycle.machine = m.withState .awaitingInput ∧
      m.inWorkerMode.cycle.result = .error (.timeout m.channel.program .input m.channel.ioTimeout) ∧
      m.inWorkerMode.cycle.machine = m.inWorkerMode) ∨
    (m.cycle.result ≠ .ok .suspended ∧ m.cycle.machine.state ≠ .awaitingInput ∧
      m.inWorkerMode.cycle.result = m.cycle.result ∧
      m.inWorkerMode.cycle.machine = m.cycle.machine.inWorkerMode) := by
  by_cases starving : m.Starving
  · obtain ⟨events, suspended⟩ := cycle_of_starving patient.toSuspends running starving
    obtain ⟨events', waited⟩ :=
      worker_cycle_of_starving (m := m.inWorkerMode) rfl patient.unserved running starving
    have timed : m.inWorkerMode.channel.ioTimeout.isTimable := patient.timed
    rw [if_pos timed] at waited
    rw [suspended, waited]
    exact .inl ⟨rfl, rfl, rfl, rfl⟩
  · rw [cycle_inWorkerMode starving]
    refine .inr ⟨?_, ?_, rfl, rfl⟩
    · intro suspended
      rcases cycle_cooperative patient.mode running with
        ⟨result, -⟩ | ⟨-, -, starving', -⟩ | ⟨result, -⟩ | ⟨⟨text, fault, result⟩, -⟩
      · cases suspended.symm.trans result
      · exact starving starving'
      · cases suspended.symm.trans result
      · cases suspended.symm.trans result
    · rcases cycle_cooperative patient.mode running with ⟨-, state⟩ | ⟨-, -, starving', -⟩ | ⟨-, state⟩ | ⟨-, state⟩
      · rw [state]
        exact nofun
      · exact absurd starving' starving
      · rw [state]
        exact nofun
      · rw [state]
        exact nofun

theorem counterpart_withState (running : m.state = .running) :
    (m.withState .awaitingInput).counterpart = m.inWorkerMode := by
  have same : m.withState .running = m := by rw [← running, withState_state]
  calc (m.withState .awaitingInput).counterpart
    _ = (m.withState .running).inWorkerMode := rfl
    _ = m.inWorkerMode := by rw [same]

theorem launched_inWorkerMode (m : Machine) : m.inWorkerMode.launched = m.launched.inWorkerMode := by
  have same : m.inWorkerMode.state = m.state := rfl
  unfold launched
  rw [same]
  cases m.state with
  | initialising | running | awaitingInput | ended | halted => rfl

theorem launched_counterpart (m : Machine) : m.counterpart.launched = m.launched.inWorkerMode := by
  by_cases awaiting : m.state = .awaitingInput
  · have woken : m.counterpart = (m.withState .running).inWorkerMode := by
      unfold counterpart Channel.awake
      rw [show m.channel.state = .awaitingInput from awaiting]
      rfl
    rw [launched_of_awaiting awaiting, woken]
    exact launched_of_running rfl
  · rw [counterpart_of_ne awaiting, launched_inWorkerMode]

end Machine

/-! ## What is answered -/

/-- A wait for input that has run out. -/
def TimesOut {α : Type} (result : Except Failure α) : Prop :=
  ∃ program waited, result = .error (.timeout program .input waited)

/-- The result of a machine in worker mode beside that of a cooperative one, which tells that it has suspended by one of
    the values `suspended`. -/
structure Matches {α : Type} (suspended : α → Prop) (result result' : Except Failure α) : Prop where
  timeout : TimesOut result' ↔ ∃ a, result = .ok a ∧ suspended a
  other : ¬ TimesOut result' → result' = result

namespace Matches
variable {α β : Type} {suspended : α → Prop} {suspended' : β → Prop}

theorem of_suspended {a : α} (suspends : suspended a) (program : String) (waited : Duration) :
    Matches suspended (.ok a) (.error (.timeout program .input waited)) where
  timeout := ⟨fun _ => ⟨a, rfl, suspends⟩, fun _ => ⟨program, waited, rfl⟩⟩
  other none := absurd ⟨program, waited, rfl⟩ none

theorem of_served {result : Except Failure α} (served : ∀ a, result = .ok a → ¬ suspended a)
    (inTime : ¬ TimesOut result) : Matches suspended result result where
  timeout := ⟨fun timeout => absurd timeout inTime, fun ⟨a, ok, suspends⟩ => absurd suspends (served a ok)⟩
  other _ := rfl

theorem of_ok {a : α} (served : ¬ suspended a) : Matches suspended (.ok a) (.ok a) := by
  refine of_served ?_ ?_
  · rintro _ ⟨⟩
    exact served
  · rintro ⟨program, waited, impossible⟩
    cases impossible

theorem of_error {failure : Failure} (inTime : ∀ program waited, failure ≠ .timeout program .input waited) :
    Matches suspended (.error failure) (.error failure) := by
  refine of_served nofun ?_
  rintro ⟨program, waited, same⟩
  exact inTime program waited (Except.error.inj same)

/-- Results that match are wrapped alike. -/
theorem map {result result' : Except Failure α} (matched : Matches suspended result result') (f : α → β)
    (same : ∀ a, suspended' (f a) ↔ suspended a) : Matches suspended' (result.map f) (result'.map f) := by
  by_cases timeout : TimesOut result'
  · obtain ⟨a, rfl, suspends⟩ := matched.timeout.mp timeout
    obtain ⟨program, waited, rfl⟩ := timeout
    exact of_suspended ((same a).mpr suspends) program waited
  · obtain rfl := matched.other timeout
    cases result' with
    | ok a => exact of_ok fun suspends => timeout (matched.timeout.mpr ⟨a, rfl, (same a).mp suspends⟩)
    | error failure =>
      refine of_error ?_
      rintro program waited rfl
      exact timeout ⟨program, waited, rfl⟩

end Matches

/-- A reply that tells of a suspension. -/
def Reply.Suspended (reply : Reply) : Prop := reply = .state .awaitingInput ∨ reply = .step .suspended

theorem Channel.matches_accepts (c : Channel) (words : List Word) :
    Matches Reply.Suspended (c.accepts (c.feedAll words)).1 (c.accepts (c.feedAll words)).1 := by
  unfold feedAll
  split
  · exact .of_error nofun
  · exact .of_ok (by simp [Reply.Suspended])

theorem Channel.starved_output (c : Channel) (program : String) (waited : Duration) :
    c.starved .output ≠ .timeout program .input waited := by
  unfold starved
  split <;> exact nofun

/-- A call on a channel never waits for input. -/
theorem ChannelCall.matches_answer (call : ChannelCall) (c : Channel) :
    Matches Reply.Suspended (call.answer c).1 (call.answer c).1 := by
  cases call with
  | feed | feedAll | feedText => exact c.matches_accepts _
  | tryConsume | consumeUpTo | drain | halt => exact .of_ok (by simp [Reply.Suspended])
  | consume =>
    change Matches Reply.Suspended (c.consume.1.map .word) (c.consume.1.map .word)
    unfold Channel.consume Channel.wait
    split
    · cases c.pop? .output with
      | some front => exact .of_ok (by simp [Reply.Suspended])
      | none => exact .of_error c.starved_output
    · exact .of_error nofun
  | awaitOutput n =>
    change Matches Reply.Suspended ((c.awaitOutput n).1.map .words) ((c.awaitOutput n).1.map .words)
    unfold Channel.awaitOutput
    split
    · simp only
      split
      · exact .of_ok (by simp [Reply.Suspended])
      · exact .of_error c.starved_output
    · exact .of_error nofun

/-! ## Runs -/

namespace Machine
variable {m n : Machine} {result result' : Except Failure RunState}

/-- A run of a cooperative machine and the same in worker mode. -/
theorem Runs.in_worker (run : Runs m result n) (patient : m.Patient) (awake : m.state ≠ .awaitingInput) :
    ∃ result', Runs m.inWorkerMode result' n.counterpart ∧ Matches (· = .awaitingInput) result result' := by
  induction run with
  | @rest m stopped =>
    rw [counterpart_of_ne awake]
    exact ⟨_, .rest (m := m.inWorkerMode) stopped, .of_ok awake⟩
  | @fault m failure running failed =>
    rcases cycle_modes patient running with ⟨suspended, -⟩ | ⟨-, other, same, left⟩
    · cases suspended.symm.trans failed
    · rw [counterpart_of_ne other, ← left]
      refine ⟨_, .fault running (same.trans failed), .of_error ?_⟩
      rintro program waited rfl
      obtain ⟨⟨text, fault, impossible⟩, -⟩ := cycle_failed patient.mode running failed
      cases impossible
  | @cycle m n step result running done later ih =>
    rcases cycle_modes patient running with ⟨-, awaits, waited, left⟩ | ⟨-, other, same, left⟩
    · rw [awaits] at later
      have stopped : (m.withState .awaitingInput).state ≠ .running := nofun
      obtain ⟨rfl, rfl⟩ := later.unique (.rest stopped)
      have run := Runs.fault (m := m.inWorkerMode) running waited
      rw [left] at run
      rw [counterpart_withState running]
      exact ⟨_, run, .of_suspended (by rfl) _ _⟩
    · obtain ⟨result', run, matched⟩ := ih patient.cycle other
      rw [← left] at run
      exact ⟨result', .cycle running (same.trans done) run, matched⟩

theorem Runs.of_worker (run : Runs m.inWorkerMode result' n) (patient : m.Patient) :
    ∃ result n, Runs m result n := by
  generalize same : m.inWorkerMode = w at run
  induction run generalizing m with
  | rest stopped =>
    subst same
    exact ⟨_, m, .rest stopped⟩
  | fault running failed =>
    subst same
    rcases cycle_modes patient running with ⟨suspended, awaits, -⟩ | ⟨-, -, same, -⟩
    · refine ⟨.ok .awaitingInput, m.withState .awaitingInput, .cycle running suspended ?_⟩
      rw [awaits]
      exact .rest nofun
    · exact ⟨_, _, .fault running (same.symm.trans failed)⟩
  | cycle running done later ih =>
    subst same
    rcases cycle_modes patient running with ⟨-, -, waited, -⟩ | ⟨-, -, same, left⟩
    · cases waited.symm.trans done
    · obtain ⟨result, n, run⟩ := ih patient.cycle left.symm
      exact ⟨result, n, .cycle running (same.symm.trans done) run⟩

end Machine

/-! ## Sessions -/

section
variable {m left : Machine} {request : Request} {requests : List Request} {reply reply' : Except Failure Reply}
  {outcomes outcomes' : List (Except Failure Reply × Machine)} {fuel fuel' : Nat}

/-- What a call comes to in worker mode beside what it comes to on a cooperative machine: it times out where that one
    suspends, and is answered the same otherwise. It leaves the same machine, running where that one awaits input. -/
structure Counterparts (outcome outcome' : Except Failure Reply × Machine) : Prop where
  timeout : TimesOut outcome'.1 ↔ outcome.1 = .ok (.state .awaitingInput) ∨ outcome.1 = .ok (.step .suspended)
  reply : ¬ TimesOut outcome'.1 → outcome'.1 = outcome.1
  machine : outcome'.2 = outcome.2.counterpart

theorem Counterparts.of_matches {outcome outcome' : Except Failure Reply × Machine}
    (matched : Matches Reply.Suspended outcome.1 outcome'.1) (machine : outcome'.2 = outcome.2.counterpart) :
    Counterparts outcome outcome' where
  timeout := by
    rw [matched.timeout]
    constructor
    · rintro ⟨answer, same, rfl | rfl⟩
      · exact .inl same
      · exact .inr same
    · rintro (same | same)
      · exact ⟨_, same, .inl rfl⟩
      · exact ⟨_, same, .inr rfl⟩
  reply := matched.other
  machine := machine

theorem answer_resume_iff {outcome : Except Failure Reply × Machine} :
    (∃ fuel, Request.resume.answer fuel m = some outcome) ↔
      ∃ result n, Returns (m.resume ·) result n ∧ outcome = (result.map .state, n) := by
  constructor
  · rintro ⟨fuel, answered⟩
    obtain ⟨⟨result, n, events⟩, resumed, rfl⟩ := Option.map_eq_some_iff.mp answered
    exact ⟨result, n, ⟨fuel, events, resumed⟩, rfl⟩
  · rintro ⟨result, n, ⟨fuel, events, resumed⟩, rfl⟩
    exact ⟨fuel, Option.map_eq_some_iff.mpr ⟨_, resumed, rfl⟩⟩

theorem resume_in_worker {result : Except Failure RunState} (patient : m.Patient)
    (returned : Returns (m.resume ·) result left) :
    ∃ result', Returns (m.counterpart.resume ·) result' left.counterpart ∧ Matches (· = .awaitingInput) result result' := by
  have same : m.counterpart.state.isTerminal = m.state.isTerminal := RunState.isTerminal_awake m.state
  cases rest : m.state.isTerminal with
  | true =>
    obtain ⟨fuel, events, resumed⟩ := returned
    cases (Machine.resume_of_terminal rest fuel).symm.trans resumed
    refine ⟨_, ⟨0, _, Machine.resume_of_terminal (same.trans rest) 0⟩, ?_⟩
    have failure : m.counterpart.invalidState .resume = m.invalidState .resume :=
      congrArg (Failure.invalidState m.name .resume) (RunState.awake_of_terminal rest)
    rw [failure]
    exact .of_error nofun
  | false =>
    have run := (Machine.returns_resume_iff rest).mp returned
    have awake : m.launched.state ≠ .awaitingInput := by
      rw [Machine.launched_running rest]
      exact nofun
    obtain ⟨result', run', matched⟩ := run.in_worker patient.launched awake
    rw [← m.launched_counterpart] at run'
    exact ⟨result', (Machine.returns_resume_iff (same.trans rest)).mpr run', matched⟩

/-- A call that comes back in worker mode comes back from a cooperative machine. -/
theorem resume_of_worker {result' : Except Failure RunState} (patient : m.Patient)
    (returned : Returns (m.counterpart.resume ·) result' left) : ∃ result n, Returns (m.resume ·) result n := by
  cases rest : m.state.isTerminal with
  | true => exact ⟨_, m, 0, _, Machine.resume_of_terminal rest 0⟩
  | false =>
    have rest' : m.counterpart.state.isTerminal = false := (RunState.isTerminal_awake m.state).trans rest
    have run := (Machine.returns_resume_iff rest').mp returned
    rw [m.launched_counterpart] at run
    obtain ⟨result, n, run'⟩ := run.of_worker patient.launched
    exact ⟨result, n, (Machine.returns_resume_iff rest).mpr run'⟩

theorem step_in_worker (patient : m.Patient) :
    m.counterpart.step.machine = m.step.machine.counterpart ∧
      Matches (· = .suspended) m.step.result m.counterpart.step.result := by
  have same : m.counterpart.state.isTerminal = m.state.isTerminal := RunState.isTerminal_awake m.state
  cases rest : m.state.isTerminal with
  | true =>
    have failure : m.counterpart.invalidState .step = m.invalidState .step :=
      congrArg (Failure.invalidState m.name .step) (RunState.awake_of_terminal rest)
    rw [Machine.step_of_terminal rest, Machine.step_of_terminal (same.trans rest), failure]
    exact ⟨rfl, .of_error nofun⟩
  | false =>
    obtain ⟨result, machine⟩ := Machine.step_of_live rest
    obtain ⟨result', machine'⟩ := Machine.step_of_live (same.trans rest)
    rw [m.launched_counterpart] at result' machine'
    rw [result, machine, result', machine']
    have running := Machine.launched_running rest
    rcases Machine.cycle_modes patient.launched running with
      ⟨suspended, awaits, waited, left⟩ | ⟨served, other, same, left⟩
    · rw [suspended, awaits, waited, left, Machine.counterpart_withState running]
      exact ⟨rfl, .of_suspended (by rfl) _ _⟩
    · rw [same, left, Machine.counterpart_of_ne other]
      refine ⟨rfl, .of_served ?_ ?_⟩
      · rintro step ok rfl
        exact served ok
      · rintro ⟨program, waited, failed⟩
        obtain ⟨⟨text, fault, impossible⟩, -⟩ :=
          Machine.cycle_failed patient.launched.mode running failed
        cases impossible

theorem halt_in_worker (m : Machine) (silent : Bool) :
    (m.counterpart.halt silent).machine = (m.halt silent).machine.counterpart ∧
      (m.counterpart.halt silent).result = (m.halt silent).result := by
  have halts := m.channel.halt_awake
  change m.counterpart.channel.halt = _ at halts
  unfold Machine.halt
  rw [halts]
  rcases m.channel.halt with ⟨_ | _, channel⟩
  · exact ⟨rfl, rfl⟩
  · exact ⟨rfl, rfl⟩

theorem Machine.matches_halt (m : Machine) (silent : Bool) :
    Matches Reply.Suspended ((m.halt silent).result.map .flag) ((m.halt silent).result.map .flag) := by
  unfold Machine.halt
  rcases m.channel.halt with ⟨_ | _, channel⟩
  · exact .of_ok (by simp [Reply.Suspended])
  · exact .of_ok (by simp [Reply.Suspended])

/-- What a cooperative machine answers has its counterpart in worker mode. -/
theorem answer_in_worker (patient : m.Patient) (answered : request.answer fuel m = some (reply, left)) :
    ∃ fuel' outcome', request.answer fuel' m.counterpart = some outcome' ∧ Counterparts (reply, left) outcome' := by
  cases request with
  | resume =>
    obtain ⟨result, n, returned, same⟩ := answer_resume_iff.mp ⟨fuel, answered⟩
    obtain ⟨result', returned', matched⟩ := resume_in_worker patient returned
    obtain ⟨fuel', answered'⟩ := answer_resume_iff.mpr ⟨result', _, returned', rfl⟩
    cases same
    exact ⟨fuel', _, answered', .of_matches (matched.map _ fun state => by simp [Reply.Suspended]) rfl⟩
  | step =>
    cases answered
    obtain ⟨machine, matched⟩ := step_in_worker patient
    exact ⟨0, _, rfl, .of_matches (matched.map _ fun step => by simp [Reply.Suspended]) machine⟩
  | halt silent =>
    cases answered
    obtain ⟨machine, result⟩ := halt_in_worker m silent
    refine ⟨0, _, rfl, .of_matches ?_ machine⟩
    rw [result]
    exact m.matches_halt silent
  | channel call =>
    cases answered
    have same := call.answer_awake m.channel
    change call.answer m.counterpart.channel = _ at same
    refine ⟨0, _, rfl, .of_matches ?_ ?_⟩
    · rw [same]
      exact call.matches_answer m.channel
    · rw [same]
      rfl

theorem answer_of_worker {outcome' : Except Failure Reply × Machine} (patient : m.Patient)
    (answered : request.answer fuel m.counterpart = some outcome') :
    ∃ fuel outcome, request.answer fuel m = some outcome := by
  cases request with
  | resume =>
    obtain ⟨result', n', returned', -⟩ := answer_resume_iff.mp ⟨fuel, answered⟩
    obtain ⟨result, n, returned⟩ := resume_of_worker patient returned'
    obtain ⟨fuel', answered'⟩ := answer_resume_iff.mpr ⟨result, n, returned, rfl⟩
    exact ⟨fuel', _, answered'⟩
  | step | halt | channel => exact ⟨0, _, rfl⟩

theorem Channel.pop?_timeout {c c' : Channel} {queue : Queue} {word : Word} (popped : c.pop? queue = some (word, c')) :
    c'.ioTimeout = c.ioTimeout := by
  unfold pop? at popped
  split at popped
  · cases popped
  · cases popped
    cases queue <;> rfl

/-- A call on a channel leaves the time that waits take alone. -/
theorem ChannelCall.answer_timeout (call : ChannelCall) (c : Channel) : (call.answer c).2.ioTimeout = c.ioTimeout := by
  have fed (words : List Word) : (c.accepts (c.feedAll words)).2.ioTimeout = c.ioTimeout := by
    unfold Channel.feedAll
    split <;> rfl
  cases call with
  | feed | feedAll | feedText => exact fed _
  | tryConsume =>
    unfold answer Channel.tryConsume
    cases popped : c.pop? .output with
    | none => rfl
    | some front => exact Channel.pop?_timeout popped
  | consume =>
    change (c.wait .output).2.ioTimeout = c.ioTimeout
    rcases c.wait_cases .output with ⟨word, c', popped, waited⟩ | ⟨failure, waited⟩
    · rw [waited]
      exact Channel.pop?_timeout popped
    · rw [waited]
  | consumeUpTo | drain => rfl
  | awaitOutput n =>
    change (c.awaitOutput n).2.ioTimeout = c.ioTimeout
    unfold Channel.awaitOutput
    split
    · simp only
      split <;> rfl
    · rfl
  | halt =>
    change c.halt.2.ioTimeout = c.ioTimeout
    unfold Channel.halt
    split <;> rfl

theorem answer_patient (patient : m.Patient) (answered : request.answer fuel m = some (reply, left)) :
    left.Patient := by
  cases request with
  | resume =>
    obtain ⟨result, n, returned, same⟩ := answer_resume_iff.mp ⟨fuel, answered⟩
    cases same
    cases rest : m.state.isTerminal with
    | true =>
      obtain ⟨fuel, events, resumed⟩ := returned
      cases (Machine.resume_of_terminal rest fuel).symm.trans resumed
      exact patient
    | false =>
      have follows := ((Machine.returns_resume_iff rest).mp returned).follows
      exact patient.launched.of_same follows.config follows.timeout
  | step =>
    cases answered
    cases rest : m.state.isTerminal with
    | true =>
      rw [Machine.step_of_terminal rest]
      exact patient
    | false =>
      rw [(Machine.step_of_live rest).2]
      exact patient.launched.cycle
  | halt silent =>
    cases answered
    have timeout : m.channel.halt.2.ioTimeout = m.channel.ioTimeout := ChannelCall.halt.answer_timeout m.channel
    unfold Machine.halt
    rcases halted : m.channel.halt with ⟨_ | _, channel⟩ <;>
    · rw [halted] at timeout
      exact patient.of_same rfl timeout
  | channel call =>
    cases answered
    exact patient.of_same rfl (call.answer_timeout m.channel)

/-- The bound makes no difference to an answer. -/
theorem answer_unique {outcome outcome' : Except Failure Reply × Machine}
    (answered : request.answer fuel m = some outcome) (again : request.answer fuel' m = some outcome') :
    outcome = outcome' := by
  cases request with
  | resume =>
    obtain ⟨o, resumed, rfl⟩ := Option.map_eq_some_iff.mp answered
    obtain ⟨o', resumed', rfl⟩ := Option.map_eq_some_iff.mp again
    have first := Machine.resume_mono resumed (Nat.le_max_left fuel fuel')
    have second := Machine.resume_mono resumed' (Nat.le_max_right fuel fuel')
    cases first.symm.trans second
    rfl
  | step | halt | channel => exact Option.some.inj (answered.symm.trans again)

namespace Session

theorem unique (session : Session m requests outcomes) (again : Session m requests outcomes') :
    outcomes = outcomes' := by
  induction session generalizing outcomes' with
  | done m =>
    cases again
    rfl
  | call answered goesOn ih =>
    cases again with
    | call answered' goesOn' =>
      cases answer_unique answered answered'
      rw [ih goesOn']

/-- A session with a cooperative machine has its counterpart in worker mode. -/
theorem in_worker (session : Session m requests outcomes) (patient : m.Patient) :
    ∃ outcomes', Session m.counterpart requests outcomes' ∧ List.Forall₂ Counterparts outcomes outcomes' := by
  induction session with
  | done m => exact ⟨[], .done _, .nil⟩
  | call answered goesOn ih =>
    obtain ⟨fuel', ⟨reply', left'⟩, answered', counterparts⟩ := answer_in_worker patient answered
    obtain ⟨later', session, matched⟩ := ih (answer_patient patient answered)
    rw [← counterparts.machine] at session
    exact ⟨_, .call answered' session, .cons counterparts matched⟩

theorem of_worker (session : Session m.counterpart requests outcomes') (patient : m.Patient) :
    ∃ outcomes, Session m requests outcomes := by
  induction requests generalizing m outcomes' with
  | nil => exact ⟨[], .done m⟩
  | cons request requests ih =>
    cases session with
    | call answered' goesOn =>
      obtain ⟨fuel, ⟨reply, left⟩, answered⟩ := answer_of_worker patient answered'
      obtain ⟨fuel', outcome', found, counterparts⟩ := answer_in_worker patient answered
      cases answer_unique answered' found
      have machine := counterparts.machine
      simp only at machine
      rw [machine] at goesOn
      obtain ⟨later, session⟩ := ih goesOn (answer_patient patient answered)
      exact ⟨_, .call answered session⟩

end Session

end

/-- Worker mode agrees with cooperative mode as long as a machine is driven by its caller alone. Take a program without
    a default input, whose waits have a near deadline (with one beyond the clock the machine in worker mode breaks down
    where the other one suspends), and calls made one after another on a new machine with it, in either mode. All of
    them come back in one mode if they do in the other. Each call fails by a timeout on the input in worker mode exactly
    if the cooperative machine suspends, and is answered the same otherwise. After each call the machines are the same
    but for their mode, and for the state of the one in worker mode, which runs where the other awaits input. -/
theorem session_modes {program : List Word} {config : Config} (unserved : config.defaultInput = none)
    (near : config.ioTimeout.Near) (requests : List Request) :
    ((∃ outcomes, Session (.ofProgram program { config with mode := .cooperative }) requests outcomes) ↔
      ∃ outcomes, Session (.ofProgram program { config with mode := .worker }) requests outcomes) ∧
    ∀ outcomes outcomes', Session (.ofProgram program { config with mode := .cooperative }) requests outcomes →
      Session (.ofProgram program { config with mode := .worker }) requests outcomes' →
      List.Forall₂ Counterparts outcomes outcomes' := by
  have patient : (Machine.ofProgram program { config with mode := .cooperative }).Patient :=
    ⟨⟨rfl, unserved⟩, near.isTimable⟩
  have worker : Machine.ofProgram program { config with mode := .worker } =
      (Machine.ofProgram program { config with mode := .cooperative }).counterpart := rfl
  rw [worker]
  refine ⟨⟨?_, ?_⟩, fun outcomes outcomes' session session' => ?_⟩
  · rintro ⟨outcomes, session⟩
    obtain ⟨outcomes', session', -⟩ := session.in_worker patient
    exact ⟨outcomes', session'⟩
  · rintro ⟨outcomes', session'⟩
    exact session'.of_worker patient
  · obtain ⟨_, found, matched⟩ := session.in_worker patient
    obtain rfl := session'.unique found
    exact matched

/-- A program that passes words on is resumed without input, fed a word, and resumed once more. -/
theorem session_modes_echo :
    ∃ outcomes outcomes', Session (.ofProgram [3, 7, 4, 7, 1105, 1, 0] {})
        [.resume, .channel (.feed 5), .resume, .channel .drain, .step, .halt false] outcomes ∧
      Session (.ofProgram [3, 7, 4, 7, 1105, 1, 0] { mode := .worker })
        [.resume, .channel (.feed 5), .resume, .channel .drain, .step, .halt false] outcomes' ∧
      outcomes.map (·.1) = [.ok (.state .awaitingInput), .ok .done, .ok (.state .awaitingInput), .ok (.words [5]),
        .ok (.step .suspended), .ok (.flag true)] ∧
      List.Forall₂ Counterparts outcomes outcomes' := by
  have replies : (Request.answers 9 (.ofProgram [3, 7, 4, 7, 1105, 1, 0] {})
      [.resume, .channel (.feed 5), .resume, .channel .drain, .step, .halt false]).map
        (fun outcomes => outcomes.map fun outcome => outcome.1) =
      some [.ok (.state .awaitingInput), .ok .done, .ok (.state .awaitingInput), .ok (.words [5]),
        .ok (.step .suspended), .ok (.flag true)] := by decide +kernel
  obtain ⟨outcomes, answered, replied⟩ := Option.map_eq_some_iff.mp replies
  have session := Session.of_answers answered
  have unserved : Config.defaultInput {} = none := rfl
  have near : (Config.ioTimeout {}).Near := by
    unfold Duration.Near
    decide
  obtain ⟨alike, matched⟩ := session_modes unserved near _
  obtain ⟨outcomes', session'⟩ := alike.mp ⟨outcomes, session⟩
  exact ⟨outcomes, outcomes', session, session', replied, matched outcomes outcomes' session session'⟩

end IntegerMachine
