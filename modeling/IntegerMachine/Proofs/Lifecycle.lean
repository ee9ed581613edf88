import IntegerMachine.Machine.Display
import IntegerMachine.Proofs.Suspension
import Mathlib.Data.List.Chain

/-!
# The lifecycle

The run state of a machine only moves forward, but for the way between running and awaiting input
(`RunState.Moves`), and a machine at rest stays as it is. Both hold over every history of calls on the machine
and on its channel (`History.lifecycle`), and so does the rule of what is legal when (`Call.Illegal`). A
history records the states that the machine comes by, also those it only passes through during a call.
-/
namespace IntegerMachine

/-- The moves of the run state. -/
inductive RunState.Moves : RunState → RunState → Prop
  | start : Moves .initialising .running
  | suspend : Moves .running .awaitingInput
  | revive : Moves .awaitingInput .running
  | finish : Moves .running .ended
  | halt {state : RunState} (live : state.isTerminal = false) : Moves state .halted

/-- The run state stays or makes one move. -/
def RunState.Passes (state state' : RunState) : Prop := state' = state ∨ state.Moves state'

/-- The calls on a machine and on its channel. -/
inductive Call where
  | run
  | resume
  | step
  | runWith (words : List Word)
  | halt (silent : Bool)
  | poke (address : Nat) (word : Word)
  | readOutput
  | dumpAfterHalt
  | feed (word : Word)
  | feedAll (words : List Word)
  | feedText (text : String)
  | tryConsume
  | consume
  | consumeUpTo (n : Nat)
  | awaitOutput (n : Nat)
  | drain
  | haltChannel

/-- Whether a call succeeded, and the machine it leaves. -/
def Outcome.verdict {α : Type} (o : Outcome α) : Except Failure Unit × Machine :=
  (o.result.map fun _ => (), o.machine)

namespace Machine

/-- The verdict on a call on the channel. -/
def through (m : Machine) {α : Type} (call : Except Failure α × Channel) : Except Failure Unit × Machine :=
  (call.1.map fun _ => (), { m with channel := call.2 })

/-- The verdict on a call that feeds. -/
def feeding (m : Machine) : Except Failure Channel → Except Failure Unit × Machine
  | .ok channel => (.ok (), { m with channel })
  | .error failure => (.error failure, m)

end Machine

namespace Call

/-- Makes the call, a call that drives the machine with a bound on its cycles. -/
def perform (fuel : Nat) (m : Machine) : Call → Option (Except Failure Unit × Machine)
  | .run => (m.run fuel).map Outcome.verdict
  | .resume => (m.resume fuel).map Outcome.verdict
  | .step => some m.step.verdict
  | .runWith words => (m.runWith fuel words).map Outcome.verdict
  | .halt silent => some (m.halt silent).verdict
  | .poke address word => some (m.poke address word).verdict
  | .readOutput => some m.readOutput.verdict
  | .dumpAfterHalt => some (m.dumpAfterHalt.map fun _ => (), m)
  | .feed word => some (m.feeding (m.channel.feed word))
  | .feedAll words => some (m.feeding (m.channel.feedAll words))
  | .feedText text => some (m.feeding (m.channel.feedText text))
  | .tryConsume => some (m.through (.ok m.channel.tryConsume.1, m.channel.tryConsume.2))
  | .consume => some (m.through m.channel.consume)
  | .consumeUpTo n => some (m.through (.ok (m.channel.consumeUpTo n).1, (m.channel.consumeUpTo n).2))
  | .awaitOutput n => some (m.through (m.channel.awaitOutput n))
  | .drain => some (m.through (.ok m.channel.drain.1, m.channel.drain.2))
  | .haltChannel => some (m.through (.ok m.channel.halt.1, m.channel.halt.2))

/-- The calls that are not legal in a run state. A call that feeds nothing is always legal. -/
def Illegal (state : RunState) : Call → Prop
  | .run | .poke .. => state ≠ .initialising
  | .readOutput | .dumpAfterHalt => state ≠ .ended
  | .resume | .step | .runWith _ | .feed _ => state.isTerminal
  | .feedAll words => state.isTerminal ∧ words ≠ []
  | .feedText text => state.isTerminal ∧ Word.ofText text.toList ≠ []
  | .halt _ | .tryConsume | .consume | .consumeUpTo _ | .awaitOutput _ | .drain | .haltChannel => False

end Call

namespace Machine

/-- The machines that a run comes by, one after each cycle. -/
def visited : Nat → Machine → List Machine
  | 0, m => [m]
  | fuel + 1, m => m :: if m.state = .running then visited fuel m.cycle.machine else []

end Machine

/-- The machines that a call comes by, apart from the one it finds and the one it leaves. -/
def Call.between (fuel : Nat) (m : Machine) : Call → List Machine
  | .run => if m.state = .initialising then m.launched.visited fuel else []
  | .resume => m.launched.visited fuel
  | .step => [m.launched]
  | .runWith words => (m.fed words).launched.visited fuel
  | _ => []

/-- A history of calls on a machine that has been made: the run states it has come by, and what it is now. -/
inductive History (program : List Word) (config : Config) : List RunState → Machine → Prop
  | made : History program config [(Machine.ofProgram program config).state] (.ofProgram program config)
  | call {states : List RunState} {m m' : Machine} {result : Except Failure Unit}
      (before : History program config states m) (call : Call) (fuel : Nat)
      (performed : call.perform fuel m = some (result, m')) :
      History program config (states ++ ((call.between fuel m).map Machine.state ++ [m'.state])) m'

/-- A call failed since it is not legal in the run state. -/
def Refused (result : Except Failure Unit) : Prop :=
  ∃ program operation state, result = .error (.invalidState program operation state)

theorem not_refused_ok : ¬ Refused (.ok ()) := by
  rintro ⟨_, _, _, impossible⟩
  cases impossible

theorem not_refused_faulted {program text : String} {ip : Nat} {fault : Fault} :
    ¬ Refused (.error (.faulted program ip text fault)) := by
  rintro ⟨_, _, _, impossible⟩
  cases impossible

/-! ## The states of a run -/

namespace Machine
variable {m n : Machine}

theorem launched_passes (m : Machine) : m.state.Passes m.launched.state := by
  unfold launched
  cases state : m.state with
  | initialising => exact .inr .start
  | running | ended | halted => exact .inl state
  | awaitingInput => exact .inr .revive

theorem cycle_passes (mode : m.config.mode = .cooperative) (running : m.state = .running) :
    m.state.Passes m.cycle.machine.state := by
  rw [running]
  rcases cycle_cooperative mode running with ⟨-, state⟩ | ⟨-, state, -⟩ | ⟨-, state⟩ | ⟨-, state⟩
  · exact .inl state
  · exact state ▸ .inr .suspend
  · exact state ▸ .inr .finish
  · exact state ▸ .inr (.halt rfl)

theorem cycle_not_refused (mode : m.config.mode = .cooperative) (running : m.state = .running) :
    ¬ Refused (m.cycle.result.map fun _ => ()) := by
  rcases cycle_cooperative mode running with ⟨result, -⟩ | ⟨result, -⟩ | ⟨result, -⟩ | ⟨⟨_, _, result⟩, -⟩
  · rw [result]
    exact not_refused_ok
  · rw [result]
    exact not_refused_ok
  · rw [result]
    exact not_refused_ok
  · rw [result]
    exact not_refused_faulted

theorem visited_eq_cons (fuel : Nat) (m : Machine) : ∃ later, m.visited fuel = m :: later := by
  cases fuel with
  | zero => exact ⟨[], rfl⟩
  | succ fuel => exact ⟨_, rfl⟩

theorem visited_of_stopped (stopped : m.state ≠ .running) (fuel : Nat) : m.visited fuel = [m] := by
  cases fuel with
  | zero => rfl
  | succ fuel => simp only [visited, if_neg stopped]

/-- The states of a run pass into one another. -/
theorem visited_passes (fuel : Nat) (mode : m.config.mode = .cooperative) :
    List.IsChain RunState.Passes ((m.visited fuel).map state) := by
  induction fuel generalizing m with
  | zero => exact .singleton _
  | succ fuel ih =>
    by_cases running : m.state = .running
    · have chain := ih (m := m.cycle.machine) ((congrArg Config.mode m.cycle_follows.config).trans mode)
      obtain ⟨later, visits⟩ := visited_eq_cons fuel m.cycle.machine
      simp only [visited, if_pos running]
      rw [visits] at chain ⊢
      exact List.isChain_cons_cons.mpr ⟨cycle_passes mode running, chain⟩
    · rw [visited_of_stopped running]
      exact .singleton _

/-- A run that comes back leaves the last machine it has come by, and is not refused. -/
theorem visited_getLast {fuel : Nat} {log events : Array Event} {result : Except Failure RunState}
    (mode : m.config.mode = .cooperative) (executed : execute fuel m log = some ⟨result, n, events⟩) :
    (m.visited fuel).getLast? = some n ∧ ¬ Refused (result.map fun _ => ()) := by
  induction fuel generalizing m log with
  | zero => cases executed
  | succ fuel ih =>
    by_cases running : m.state = .running
    · have accepted := cycle_not_refused mode running
      rw [execute_of_running running] at executed
      simp only [visited, if_pos running]
      cases cycled : m.cycle.result with
      | ok step =>
        rw [cycled] at executed
        obtain ⟨last, accepted⟩ := ih ((congrArg Config.mode m.cycle_follows.config).trans mode) executed
        obtain ⟨later, visits⟩ := visited_eq_cons fuel m.cycle.machine
        rw [visits] at last ⊢
        exact ⟨last, accepted⟩
      | error failure =>
        rw [cycled] at executed accepted
        have stopped : m.cycle.machine.state ≠ .running := by
          rw [(cycle_failed mode running cycled).2]
          exact nofun
        rw [visited_of_stopped stopped]
        cases executed
        exact ⟨rfl, accepted⟩
    · rw [execute_of_stopped running] at executed
      rw [visited_of_stopped running]
      cases executed
      exact ⟨rfl, not_refused_ok⟩

/-- A call that drives a machine lets the state pass from where it finds it to where it leaves it. -/
theorem driven_passes {fuel : Nat} {log events : Array Event} {result : Except Failure RunState}
    (mode : m.config.mode = .cooperative) (executed : execute fuel m.launched log = some ⟨result, n, events⟩) :
    List.IsChain RunState.Passes (m.state :: ((m.launched.visited fuel).map state ++ [n.state])) ∧
      ¬ Refused (result.map fun _ => ()) := by
  have launchedMode : m.launched.config.mode = .cooperative := (congrArg Config.mode m.launched_config).trans mode
  obtain ⟨last, accepted⟩ := visited_getLast launchedMode executed
  have chain := visited_passes fuel launchedMode
  have ended : List.IsChain RunState.Passes ((m.launched.visited fuel).map state ++ [n.state]) := by
    refine List.isChain_append.mpr ⟨chain, .singleton _, ?_⟩
    intro state member
    rw [List.getLast?_map, last] at member
    cases member
    intro state member
    cases member
    exact .inl rfl
  obtain ⟨later, visits⟩ := visited_eq_cons fuel m.launched
  rw [visits] at ended ⊢
  exact ⟨List.isChain_cons_cons.mpr ⟨m.launched_passes, ended⟩, accepted⟩

end Machine

/-! ## The calls one by one -/

/-- A machine that is what another was, but for the output taken from it. -/
structure Rests (m m' : Machine) : Prop extends Machine.SameProgress m m' where
  state : m'.state = m.state
  input : m'.channel.input = m.channel.input

theorem Rests.refl (m : Machine) : Rests m m := ⟨⟨rfl, rfl, rfl, rfl, rfl, rfl⟩, rfl, rfl⟩

theorem Rests.trans {m m' m'' : Machine} (first : Rests m m') (second : Rests m' m'') : Rests m m'' where
  memory := second.memory.trans first.memory
  ip := second.ip.trans first.ip
  relativeBase := second.relativeBase.trans first.relativeBase
  steps := second.steps.trans first.steps
  outputCount := second.outputCount.trans first.outputCount
  lastOutput := second.lastOutput.trans first.lastOutput
  state := second.state.trans first.state
  input := second.input.trans first.input

/-- What a call keeps to: the state passes along the lifecycle, the call is refused exactly if it is not legal
    and then leaves the machine as it is, and a machine at rest stays so. -/
structure Call.Lawful (call : Call) (m m' : Machine) (between : List Machine) (result : Except Failure Unit) :
    Prop where
  passes : List.IsChain RunState.Passes (m.state :: (between.map Machine.state ++ [m'.state]))
  refused_iff : Refused result ↔ call.Illegal m.state
  unchanged : Refused result → m' = m
  rests : m.state.isTerminal → Rests m m'
  config : m'.config = m.config

namespace Call.Lawful
variable {call : Call} {m m' : Machine} {result : Except Failure Unit}

/-- A call that is refused. -/
theorem of_refused {between : List Machine} (stays : ∀ k ∈ between, k.state = m.state) (illegal : call.Illegal m.state)
    (program : String) (operation : Operation) (state : RunState) :
    call.Lawful m m between (.error (.invalidState program operation state)) where
  passes := by
    induction between with
    | nil => exact .cons_cons (.inl rfl) (.singleton _)
    | cons k later ih =>
      have rest := ih fun k member => stays k (List.mem_cons_of_mem _ member)
      rw [List.map_cons, stays k List.mem_cons_self]
      exact .cons_cons (.inl rfl) rest
  refused_iff := ⟨fun _ => illegal, fun _ => ⟨program, operation, state, rfl⟩⟩
  unchanged _ := rfl
  rests _ := .refl m
  config := rfl

/-- A call that leaves the state, the registers and the input alone. -/
theorem of_rests (accepted : ¬ Refused result) (legal : ¬ call.Illegal m.state) (config : m'.config = m.config)
    (rests : Rests m m') : call.Lawful m m' [] result where
  passes := .cons_cons (.inl rests.state) (.singleton _)
  refused_iff := iff_of_false accepted legal
  unchanged refused := absurd refused accepted
  rests _ := rests
  config := config

/-- A call that moves a live machine. -/
theorem of_moved {between : List Machine} (accepted : ¬ Refused result) (legal : ¬ call.Illegal m.state)
    (live : m.state.isTerminal = false) (config : m'.config = m.config)
    (passes : List.IsChain RunState.Passes (m.state :: (between.map Machine.state ++ [m'.state]))) :
    call.Lawful m m' between result where
  passes := passes
  refused_iff := iff_of_false accepted legal
  unchanged refused := absurd refused accepted
  rests atRest := absurd atRest (by rw [live]; exact nofun)
  config := config

end Call.Lawful

namespace Machine
variable {m m' : Machine} {fuel : Nat} {result : Except Failure Unit}

private theorem exists_of_verdict {α : Type} {call : Option (Outcome α)}
    (performed : call.map Outcome.verdict = some (result, m')) :
    ∃ answer events, call = some ⟨answer, m', events⟩ ∧ result = answer.map fun _ => () := by
  obtain ⟨⟨answer, k, events⟩, called, same⟩ := Option.map_eq_some_iff.mp performed
  cases same
  exact ⟨answer, events, called, rfl⟩

private theorem visited_launched_of_terminal (atRest : m.state.isTerminal) (fuel : Nat) :
    ∀ k ∈ m.launched.visited fuel, k.state = m.state := by
  rw [launched_of_terminal atRest, visited_of_stopped (RunState.stopped_of_terminal atRest)]
  intro k member
  rw [List.mem_singleton.mp member]

theorem resume_lawful (mode : m.config.mode = .cooperative)
    (performed : Call.resume.perform fuel m = some (result, m')) :
    Call.resume.Lawful m m' (Call.resume.between fuel m) result := by
  obtain ⟨answer, events, resumed, rfl⟩ := exists_of_verdict performed
  cases rest : m.state.isTerminal with
  | true =>
    rw [resume_of_terminal rest] at resumed
    cases resumed
    have illegal : Call.resume.Illegal m.state := rest
    exact .of_refused (visited_launched_of_terminal rest fuel) illegal _ _ _
  | false =>
    obtain ⟨log, same⟩ := resume_eq_execute rest
    have executed := (same fuel).symm.trans resumed
    obtain ⟨passes, accepted⟩ := driven_passes mode executed
    have config := (runs_of_execute executed).follows.config.trans m.launched_config
    exact .of_moved accepted (by simp [Call.Illegal, rest]) rest config passes

theorem run_lawful (mode : m.config.mode = .cooperative)
    (performed : Call.run.perform fuel m = some (result, m')) :
    Call.run.Lawful m m' (Call.run.between fuel m) result := by
  by_cases made : m.state = .initialising
  · have resumed : Call.resume.perform fuel m = some (result, m') := by
      rw [← performed]
      simp only [Call.perform, resume, made]
    have live : m.state.isTerminal = false := by rw [made]; rfl
    have lawful := resume_lawful mode resumed
    have accepted : ¬ Refused result := by
      rw [lawful.refused_iff]
      simp [Call.Illegal, live]
    simp only [Call.between, if_pos made]
    exact .of_moved accepted (fun illegal => illegal made) live lawful.config lawful.passes
  · have unmoved : m.channel.transition? .initialising .running = none := if_neg made
    simp only [Call.perform, run, start, unmoved] at performed
    cases performed
    simp only [Call.between, if_neg made]
    have illegal : Call.run.Illegal m.state := made
    exact .of_refused (List.forall_mem_nil _) illegal _ _ _

theorem step_lawful (mode : m.config.mode = .cooperative)
    (performed : Call.step.perform fuel m = some (result, m')) :
    Call.step.Lawful m m' (Call.step.between fuel m) result := by
  cases performed
  cases rest : m.state.isTerminal with
  | true =>
    rw [step_of_terminal rest]
    have illegal : Call.step.Illegal m.state := rest
    refine .of_refused ?_ illegal _ _ _
    intro k member
    rw [List.mem_singleton.mp member, launched_of_terminal rest]
  | false =>
    obtain ⟨stepped, machine⟩ := step_of_live rest
    have running := launched_running rest
    have launchedMode : m.launched.config.mode = .cooperative := (congrArg Config.mode m.launched_config).trans mode
    rw [stepped, machine]
    have config := m.launched.cycle_follows.config.trans m.launched_config
    refine .of_moved (cycle_not_refused launchedMode running) (by simp [Call.Illegal, rest]) rest config ?_
    exact .cons_cons m.launched_passes (.cons_cons (cycle_passes launchedMode running) (.singleton _))

theorem runWith_lawful {words : List Word} (mode : m.config.mode = .cooperative)
    (performed : (Call.runWith words).perform fuel m = some (result, m')) :
    (Call.runWith words).Lawful m m' ((Call.runWith words).between fuel m) result := by
  cases rest : m.state.isTerminal with
  | true =>
    have stays : ∀ k ∈ (Call.runWith words).between fuel m, k.state = m.state :=
      visited_launched_of_terminal (m := m.fed words) rest fuel
    have refused : ∃ operation, m.runWith fuel words = some (m.answer (.error (m.invalidState operation))) ∨
        m.runWith fuel words = some (m.answer (.error (.invalidState m.channel.program operation m.state))) := by
      cases words with
      | nil =>
        have fed : m.channel.feedAll [] = .ok m.channel := by simp [Channel.feedAll]
        refine ⟨.resume, .inl ?_⟩
        simp only [runWith, fed, resume_of_terminal rest]
        rfl
      | cons word words =>
        refine ⟨.feed, .inr ?_⟩
        simp only [runWith, feedAll_of_terminal (c := m.channel) rest (List.cons_ne_nil word words)]
        rfl
    have illegal : (Call.runWith words).Illegal m.state := rest
    obtain ⟨operation, refused | refused⟩ := refused
    · simp only [Call.perform, refused] at performed
      cases performed
      exact .of_refused stays illegal _ _ _
    · simp only [Call.perform, refused] at performed
      cases performed
      exact .of_refused stays illegal _ _ _
  | false =>
    obtain ⟨answer, events, called, rfl⟩ := exists_of_verdict performed
    rw [runWith_of_live rest] at called
    obtain ⟨⟨ran, left, more⟩, outcome, handed⟩ := Option.map_eq_some_iff.mp called
    cases handed
    have resumed : Call.resume.perform fuel (m.fed words) = some (ran.map fun _ => (), left) := by
      simp only [Call.perform, outcome]
      rfl
    have lawful := resume_lawful (m := m.fed words) mode resumed
    have accepted : ¬ Refused (ran.map fun _ => ()) := by
      rw [lawful.refused_iff]
      change ¬ m.state.isTerminal
      simp [rest]
    cases ran with
    | error failure => exact .of_moved accepted (by simp [Call.Illegal, rest]) rest lawful.config lawful.passes
    | ok state => exact .of_moved accepted (by simp [Call.Illegal, rest]) rest lawful.config lawful.passes

theorem feeding_lawful {call : Call} {words : List Word}
    (illegal : call.Illegal m.state ↔ m.state.isTerminal ∧ words ≠ [])
    (performed : m.feeding (m.channel.feedAll words) = (result, m')) : call.Lawful m m' [] result := by
  cases rest : m.state.isTerminal with
  | true =>
    by_cases empty : words = []
    · have fed : m.channel.feedAll words = .ok m.channel := by simp [Channel.feedAll, empty]
      rw [fed] at performed
      cases performed
      exact .of_rests not_refused_ok (fun refused => (illegal.mp refused).2 empty) rfl (.refl m)
    · rw [feedAll_of_terminal rest empty] at performed
      cases performed
      exact .of_refused (List.forall_mem_nil _) (illegal.mpr ⟨rest, empty⟩) _ _ _
  | false =>
    have legal : ¬ call.Illegal m.state := by simp [illegal, rest]
    rw [feedAll_of_live rest] at performed
    cases performed
    exact .of_moved not_refused_ok legal rest rfl (.cons_cons (.inl rfl) (.singleton _))

theorem halt_lawful {call : Call} (m : Machine) (legal : ¬ call.Illegal m.state) :
    call.Lawful m m.halted [] (.ok ()) := by
  cases rest : m.state.isTerminal with
  | true =>
    rw [halted_of_terminal rest]
    exact .of_rests not_refused_ok legal rfl (.refl m)
  | false =>
    rw [halted_of_live rest]
    exact .of_moved not_refused_ok legal rest rfl (.cons_cons (.inr (.halt rest)) (.singleton _))

theorem poke_lawful (m : Machine) (address : Nat) (word : Word) :
    (Call.poke address word).Lawful m (m.poke address word).verdict.2 [] (m.poke address word).verdict.1 := by
  unfold poke
  by_cases made : m.state = .initialising
  · have legal : ¬ (Call.poke address word).Illegal m.state := fun illegal => illegal made
    have live : m.state.isTerminal = false := by rw [made]; rfl
    rw [if_pos made]
    cases Memory.poke address word m.memory with
    | ok previous memory =>
      exact .of_moved not_refused_ok legal live rfl (.cons_cons (.inl rfl) (.singleton _))
    | error fault memory =>
      exact .of_moved not_refused_faulted legal live rfl (.cons_cons (.inl rfl) (.singleton _))
  · have illegal : (Call.poke address word).Illegal m.state := made
    rw [if_neg made]
    exact .of_refused (List.forall_mem_nil _) illegal _ _ _

theorem readOutput_lawful (m : Machine) :
    Call.readOutput.Lawful m m.readOutput.verdict.2 [] m.readOutput.verdict.1 := by
  unfold readOutput
  by_cases ended : m.state = .ended
  · rw [if_pos ended]
    exact .of_rests not_refused_ok (fun illegal => illegal ended) rfl ⟨⟨rfl, rfl, rfl, rfl, rfl, rfl⟩, rfl, rfl⟩
  · have illegal : Call.readOutput.Illegal m.state := ended
    rw [if_neg ended]
    exact .of_refused (List.forall_mem_nil _) illegal _ _ _

theorem dumpAfterHalt_lawful (m : Machine) :
    Call.dumpAfterHalt.Lawful m m [] (m.dumpAfterHalt.map fun _ => ()) := by
  unfold dumpAfterHalt
  by_cases ended : m.state = .ended
  · rw [if_pos ended]
    exact .of_rests not_refused_ok (fun illegal => illegal ended) rfl (.refl m)
  · have illegal : Call.dumpAfterHalt.Illegal m.state := ended
    rw [if_neg ended]
    exact .of_refused (List.forall_mem_nil _) illegal _ _ _

end Machine

/-- A call on the channel that at most takes output. -/
structure Channel.Takes (c : Channel) {α : Type} (call : Except Failure α × Channel) : Prop where
  channel : ∃ output, call.2 = { c with output }
  accepted : ¬ Refused (call.1.map fun _ => ())

namespace Channel

theorem starved_not_refused (c : Channel) (queue : Queue) : ¬ Refused (.error (c.starved queue)) := by
  rintro ⟨_, _, _, same⟩
  unfold starved at same
  split at same
  · cases same
  · cases same

theorem takes_of_untimed (c : Channel) (α : Type) :
    c.Takes ((.error (.beyondCapacity c.program), c) : Except Failure α × Channel) := by
  refine ⟨⟨c.output, rfl⟩, ?_⟩
  rintro ⟨_, _, _, impossible⟩
  cases impossible

theorem tryConsume_takes (c : Channel) : c.Takes (.ok c.tryConsume.1, c.tryConsume.2) := by
  unfold tryConsume pop?
  cases c.queued .output with
  | nil => exact ⟨⟨c.output, rfl⟩, not_refused_ok⟩
  | cons word rest => exact ⟨⟨_, rfl⟩, not_refused_ok⟩

theorem consume_takes (c : Channel) : c.Takes c.consume := by
  unfold consume wait pop?
  split
  · cases c.queued .output with
    | nil => exact ⟨⟨c.output, rfl⟩, c.starved_not_refused .output⟩
    | cons word rest => exact ⟨⟨_, rfl⟩, not_refused_ok⟩
  · exact c.takes_of_untimed _

theorem consumeUpTo_takes (c : Channel) (n : Nat) : c.Takes (.ok (c.consumeUpTo n).1, (c.consumeUpTo n).2) :=
  ⟨⟨_, rfl⟩, not_refused_ok⟩

theorem drain_takes (c : Channel) : c.Takes (.ok c.drain.1, c.drain.2) := ⟨⟨_, rfl⟩, not_refused_ok⟩

theorem awaitOutput_takes (c : Channel) (n : Nat) : c.Takes (c.awaitOutput n) := by
  unfold awaitOutput
  split
  · by_cases enough : n ≤ (c.queued .output).length
    · simp only [if_pos enough]
      exact ⟨⟨_, rfl⟩, not_refused_ok⟩
    · simp only [if_neg enough]
      exact ⟨⟨_, rfl⟩, c.starved_not_refused .output⟩
  · exact c.takes_of_untimed _

end Channel

theorem Machine.through_lawful {call : Call} {m : Machine} {α : Type} {made : Except Failure α × Channel}
    (legal : ¬ call.Illegal m.state) (takes : m.channel.Takes made) :
    call.Lawful m (m.through made).2 [] (m.through made).1 := by
  obtain ⟨⟨output, same⟩, accepted⟩ := takes
  unfold Machine.through
  rw [same]
  exact .of_rests accepted legal rfl ⟨⟨rfl, rfl, rfl, rfl, rfl, rfl⟩, rfl, rfl⟩

/-- Every call keeps to the lifecycle. -/
theorem Call.perform_lawful {call : Call} {m m' : Machine} {fuel : Nat} {result : Except Failure Unit}
    (mode : m.config.mode = .cooperative) (performed : call.perform fuel m = some (result, m')) :
    call.Lawful m m' (call.between fuel m) result := by
  cases call with
  | run => exact Machine.run_lawful mode performed
  | resume => exact Machine.resume_lawful mode performed
  | step => exact Machine.step_lawful mode performed
  | runWith words => exact Machine.runWith_lawful mode performed
  | halt silent =>
    have halted : (m.halt silent).verdict = (.ok (), m.halted) := by
      simp only [Machine.halt, Machine.halted, Machine.mapChannel]
      rcases m.channel.halt with ⟨_ | _, c⟩ <;> rfl
    simp only [perform, halted] at performed
    cases performed
    exact m.halt_lawful id
  | poke address word =>
    cases performed
    exact m.poke_lawful address word
  | readOutput =>
    cases performed
    exact m.readOutput_lawful
  | dumpAfterHalt =>
    cases performed
    exact m.dumpAfterHalt_lawful
  | feed word =>
    have fed : m.feeding (m.channel.feedAll [word]) = (result, m') := Option.some.inj performed
    exact Machine.feeding_lawful (by simp [Illegal]) fed
  | feedAll words => exact Machine.feeding_lawful .rfl (Option.some.inj performed)
  | feedText text => exact Machine.feeding_lawful .rfl (Option.some.inj performed)
  | tryConsume =>
    cases performed
    exact Machine.through_lawful id m.channel.tryConsume_takes
  | consume =>
    cases performed
    exact Machine.through_lawful id m.channel.consume_takes
  | consumeUpTo n =>
    cases performed
    exact Machine.through_lawful id (m.channel.consumeUpTo_takes n)
  | awaitOutput n =>
    cases performed
    exact Machine.through_lawful id (m.channel.awaitOutput_takes n)
  | drain =>
    cases performed
    exact Machine.through_lawful id m.channel.drain_takes
  | haltChannel =>
    cases performed
    exact m.halt_lawful id

/-! ## Histories -/

/-- A machine as some call leaves another. -/
def Machine.Calls (m m' : Machine) : Prop := ∃ call fuel result, Call.perform fuel m call = some (result, m')

/-- A machine at rest stays at rest under all further calls, and only its output can still be taken. -/
theorem Machine.rests_of_calls {m m' : Machine} (mode : m.config.mode = .cooperative) (atRest : m.state.isTerminal)
    (calls : Relation.ReflTransGen Calls m m') : Rests m m' ∧ m'.config.mode = .cooperative := by
  induction calls with
  | refl => exact ⟨.refl m, mode⟩
  | tail calls last ih =>
    obtain ⟨rests, mode⟩ := ih
    obtain ⟨call, fuel, result, performed⟩ := last
    have lawful := Call.perform_lawful mode performed
    exact ⟨rests.trans (lawful.rests (by rw [rests.state]; exact atRest)), lawful.config ▸ mode⟩

namespace History
variable {program : List Word} {config : Config} {states : List RunState} {m : Machine}

theorem passes (mode : config.mode = .cooperative) (history : History program config states m) :
    states.IsChain RunState.Passes ∧ states.head? = some .initialising ∧ states.getLast? = some m.state ∧
      m.config = config := by
  induction history with
  | made => exact ⟨.singleton _, rfl, rfl, rfl⟩
  | @call states m m' result before call fuel performed ih =>
    obtain ⟨chain, first, last, same⟩ := ih
    have lawful := Call.perform_lawful (same ▸ mode) performed
    obtain ⟨link, later⟩ := List.isChain_cons.mp lawful.passes
    refine ⟨List.isChain_append.mpr ⟨chain, later, ?_⟩, ?_, ?_, lawful.config.trans same⟩
    · intro state member
      rw [last, Option.mem_some_iff] at member
      exact member ▸ link
    · rw [List.head?_append, first]
      rfl
    · simp

/-- The lifecycle holds over every history of a cooperative machine. From initialising on, the run state has
    only stayed or made one of its moves. A further call is refused exactly if it is not legal in the state
    reached, and then leaves the whole machine as it is. Once the machine has come to rest, no calls change
    its state, registers, memory, counts or input. -/
theorem lifecycle (mode : config.mode = .cooperative) (history : History program config states m) :
    (states.IsChain RunState.Passes ∧ states.head? = some .initialising ∧ states.getLast? = some m.state) ∧
    (m.state.isTerminal → ∀ m', Relation.ReflTransGen Machine.Calls m m' → Rests m m') ∧
    ∀ call fuel result m', Call.perform fuel m call = some (result, m') →
      (Refused result ↔ call.Illegal m.state) ∧ (Refused result → m' = m) := by
  obtain ⟨chain, first, last, same⟩ := history.passes mode
  have mode : m.config.mode = .cooperative := same ▸ mode
  refine ⟨⟨chain, first, last⟩, ?_, ?_⟩
  · intro atRest m' calls
    exact (Machine.rests_of_calls mode atRest calls).1
  · intro call fuel result m' performed
    have lawful := Call.perform_lawful mode performed
    exact ⟨lawful.refused_iff, lawful.unchanged⟩

/-- A program that hands one word on is run, fed and resumed, and rests from then on. -/
theorem lifecycle_relay :
    ∃ states m, History [3, 0, 4, 0, 99] {} states m ∧
      states = [.initialising, .running, .awaitingInput, .awaitingInput, .awaitingInput, .running, .running, .running,
        .ended, .ended] ∧
      states.IsChain RunState.Passes ∧ m.state.isTerminal ∧
      (∀ m', Relation.ReflTransGen Machine.Calls m m' → Rests m m') ∧
      ∃ result, Call.perform 0 m (.feed 7) = some (result, m) ∧ Refused result := by
  obtain ⟨states, m, history, came, atRest, result, m', fed⟩ : ∃ states m, History [3, 0, 4, 0, 99] {} states m ∧
      states = [.initialising, .running, .awaitingInput, .awaitingInput, .awaitingInput, .running, .running, .running,
        .ended, .ended] ∧
      m.state.isTerminal ∧ ∃ result m', Call.perform 0 m (.feed 7) = some (result, m') :=
    ⟨_, _, .call (.call (.call .made .run 10 rfl) (.feed 5) 0 rfl) .resume 10 rfl, rfl, rfl, _, _, rfl⟩
  obtain ⟨⟨chain, -⟩, rests, legality⟩ := lifecycle rfl history
  obtain ⟨refused, unchanged⟩ := legality (.feed 7) 0 result m' fed
  have illegal := refused.mpr atRest
  rw [unchanged illegal] at fed
  exact ⟨states, m, history, came, chain, atRest, rests atRest, result, fed, illegal⟩

end History

end IntegerMachine
