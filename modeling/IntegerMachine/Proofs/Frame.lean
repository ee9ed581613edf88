import IntegerMachine.Proofs.Cycle

/-!
# What a cycle does not see

A cycle looks at the channel of its machine to take a word of input, and otherwise only writes words behind
others and moves the run state. Words that stand in front of the output (`cycle_holding`) make no difference
to it, and words behind those queued for input (`cycle_fed`) make none unless the machine starves. Nor do other
settings than its name and the tracing (`cycle_reconfigured`).
-/
namespace IntegerMachine

/-- An outcome whose machine is changed. -/
def Outcome.map {α : Type} (f : Machine → Machine) (o : Outcome α) : Outcome α :=
  { o with machine := f o.machine }

/-- A change of a channel that its machine cannot tell, the taking of input apart. -/
structure Channel.Frame (f : Channel → Channel) : Prop where
  state : ∀ c, (f c).state = c.state
  withState : ∀ c state, f { c with state } = { f c with state }
  emit : ∀ c word, f (c.emit word) = (f c).emit word
  denial : ∀ c queue, (f c).denial queue = c.denial queue

/-- The change also commutes with taking the next word of input. -/
def Channel.TakesAlike (f : Channel → Channel) (c : Channel) : Prop :=
  (f c).pop? .input = (c.pop? .input).map fun (word, c) => (word, f c)

namespace Channel.Frame
variable {f : Channel → Channel}

theorem transition? (frame : Frame f) (c : Channel) (source target : RunState) :
    (f c).transition? source target = (c.transition? source target).map f := by
  unfold Channel.transition?
  by_cases same : c.state = source
  · rw [if_pos same, if_pos ((frame.state c).trans same)]
    exact congrArg some (frame.withState c target).symm
  · rw [if_neg same, if_neg (fun h => same ((frame.state c).symm.trans h))]
    rfl

theorem halt (frame : Frame f) (c : Channel) : (f c).halt.2 = f c.halt.2 := by
  unfold Channel.halt
  rw [frame.state]
  split
  · rfl
  · exact (frame.withState c .halted).symm

end Channel.Frame

namespace Machine
variable {f : Channel → Channel}

private theorem dispatch_mapChannel (m : Machine) (f : Channel → Channel) :
    (m.mapChannel f).dispatch = m.dispatch.map (·.mapChannel f) := by
  cases fetched : m.fetch with
  | error fault =>
    rw [dispatch_of_unfetched fetched, dispatch_of_unfetched (m := m.mapChannel f) fetched]
    rfl
  | ok i =>
    cases evaluated : i.evaluate m.relativeBase m.memory with
    | ok effect memory =>
      rw [dispatch_of_evaluated fetched evaluated,
        dispatch_of_evaluated (m := m.mapChannel f) fetched evaluated]
      rfl
    | error fault memory =>
      rw [dispatch_of_faulted fetched evaluated, dispatch_of_faulted (m := m.mapChannel f) fetched evaluated]
      rfl

private theorem readInput_mapChannel (frame : Channel.Frame f) {m : Machine}
    (alike : Channel.TakesAlike f m.channel) :
    (m.mapChannel f).readInput = (m.readInput.1, m.readInput.2.mapChannel f) := by
  unfold Channel.TakesAlike at alike
  cases popped : m.channel.pop? .input with
  | some front =>
    rw [popped] at alike
    simp only [readInput, mapChannel, alike, popped]
    rfl
  | none =>
    rw [popped] at alike
    simp only [readInput, mapChannel, alike, popped, Option.map_none, Channel.wait_of_none popped,
      Channel.wait_of_none alike, frame.denial]
    cases m.config.defaultInput with
    | some word => rfl
    | none =>
      cases m.config.mode with
      | cooperative => rfl
      | worker => cases m.channel.denial .input <;> rfl

private theorem receive_mapChannel (m : Machine) (start : Nat) (i : Instruction) (dest : Argument)
    (word : Word) :
    (m.mapChannel f).receive start i dest word =
      ((m.receive start i dest word).1, (m.receive start i dest word).2.mapChannel f) := by
  cases m with | mk config memory ip relativeBase channel steps outputCount lastOutput =>
  unfold receive mapChannel
  simp only
  cases Memory.store dest relativeBase word memory <;> rfl

private theorem suspend_mapChannel (frame : Channel.Frame f) (m : Machine) (start : Nat)
    (events : Array Event) :
    (m.mapChannel f).suspend start events = (m.suspend start events).map (·.mapChannel f) := by
  unfold suspend
  simp only [mapChannel, frame.transition?]
  cases m.channel.transition? .running .awaitingInput <;> rfl

private theorem finish_mapChannel (frame : Channel.Frame f) (m : Machine) (start : Nat)
    (events : Array Event) :
    (m.mapChannel f).finish start events = (m.finish start events).map (·.mapChannel f) := by
  unfold finish
  simp only [mapChannel, frame.transition?]
  cases m.channel.transition? .running .ended <;> rfl

private theorem halted_mapChannel (frame : Channel.Frame f) (m : Machine) :
    (m.mapChannel f).halted = m.halted.mapChannel f := by
  simp only [halted, mapChannel, frame.halt]

private theorem settle_mapChannel (frame : Channel.Frame f) {m : Machine} {p : Pending} (events : Array Event)
    (alike : (∃ dest, p.effect = .input dest) → Channel.TakesAlike f m.channel) :
    (m.mapChannel f).settle p events = (m.settle p events).map (·.mapChannel f) := by
  unfold settle
  cases effect : p.effect with
  | advance | jump | rebase => rfl
  | output word => simp only [counted, emit, mapChannel, Outcome.map, frame.emit]
  | halt => exact finish_mapChannel frame m p.start events
  | input dest =>
    simp only [readInput_mapChannel frame (alike ⟨dest, effect⟩)]
    rcases m.readInput with ⟨result, m'⟩
    rcases result with failure | _ | word
    · rfl
    · exact suspend_mapChannel frame m' p.start events
    · simp only [receive_mapChannel]
      rcases m'.receive p.start p.instruction dest word with ⟨result, m''⟩
      rcases result with failure | _
      · simp only [halted_mapChannel frame]
        rfl
      · rfl

/-- A cycle does the same on a machine whose channel has been changed in a way it cannot tell. -/
theorem cycle_mapChannel (frame : Channel.Frame f) {m : Machine}
    (alike : m.AtInput → Channel.TakesAlike f m.channel) :
    (m.mapChannel f).cycle = m.cycle.map (·.mapChannel f) := by
  have framed := m.dispatch_mapChannel f
  rcases m.dispatch_cases with
    ⟨i, effect, memory, events, fetched, evaluated, dispatched⟩ | ⟨text, fault, memory, ip, events, struck⟩
  · rw [dispatched] at framed
    rw [cycle_of_dispatched framed, cycle_of_dispatched dispatched]
    refine settle_mapChannel frame events ?_
    rintro ⟨dest, rfl⟩
    obtain ⟨rfl, -⟩ := Instruction.evaluate_input evaluated
    exact alike ⟨dest, fetched⟩
  · rw [struck] at framed
    rw [cycle_of_struck framed, cycle_of_struck struck, halted_mapChannel frame]
    rfl

/-! ## More input, more output -/

/-- The machine with further words behind those queued for input. -/
def fed (m : Machine) (words : List Word) : Machine :=
  m.mapChannel fun c => { c with input := c.input ++ words }

/-- The machine with words in front of those it has written. -/
def holding (m : Machine) (words : List Word) : Machine :=
  m.mapChannel fun c => { c with output := words.toArray ++ c.output }

/-- The machine with all output taken. -/
def drained (m : Machine) : Machine := m.mapChannel fun c => { c with output := #[] }

/-- The words on the output. -/
def output (m : Machine) : List Word := m.channel.output.toList

theorem fed_nil (m : Machine) : m.fed [] = m := by
  simp only [fed, mapChannel, List.append_nil]

theorem fed_fed (m : Machine) (words more : List Word) : (m.fed words).fed more = m.fed (words ++ more) := by
  simp only [fed, mapChannel, List.append_assoc]

theorem holding_nil (m : Machine) : m.holding [] = m := by
  simp [holding, mapChannel]

theorem holding_holding (m : Machine) (words more : List Word) :
    (m.holding words).holding more = m.holding (more ++ words) := by
  simp only [holding, mapChannel, ← Array.append_assoc, List.append_toArray]

theorem output_holding (m : Machine) (words : List Word) : (m.holding words).output = words ++ m.output := by
  simp [output, holding, mapChannel]

theorem holding_output_drained (m : Machine) : m.drained.holding m.output = m := by
  simp [holding, output, drained, mapChannel]

private theorem frame_fed (words : List Word) :
    Channel.Frame fun c => { c with input := c.input ++ words } where
  state _ := rfl
  withState _ _ := rfl
  emit _ _ := rfl
  denial _ _ := rfl

private theorem frame_holding (words : List Word) :
    Channel.Frame fun c => { c with output := words.toArray ++ c.output } where
  state _ := rfl
  withState _ _ := rfl
  emit _ _ := by simp [Channel.emit]
  denial _ _ := rfl

theorem dispatch_fed (m : Machine) (words : List Word) : (m.fed words).dispatch = m.dispatch.map (·.fed words) :=
  m.dispatch_mapChannel _

theorem cycle_holding (m : Machine) (words : List Word) :
    (m.holding words).cycle = m.cycle.map (·.holding words) := by
  refine cycle_mapChannel (frame_holding words) fun _ => ?_
  unfold Channel.TakesAlike Channel.pop? Channel.queued Channel.withQueued
  cases m.channel.input <;> rfl

theorem cycle_fed {m : Machine} (words : List Word) (served : ¬ m.Starving) :
    (m.fed words).cycle = m.cycle.map (·.fed words) := by
  refine cycle_mapChannel (frame_fed words) fun atInput => ?_
  have queued : m.channel.input ≠ [] := fun empty => served ⟨atInput, empty⟩
  obtain ⟨word, rest, front⟩ := List.exists_cons_of_ne_nil queued
  simp only [Channel.TakesAlike, Channel.pop?, Channel.queued, Channel.withQueued, front, List.cons_append,
    Option.map_some]

/-! ## Other settings -/

end Machine

/-- A change of the settings that nothing which is reported of a cycle shows. -/
structure Config.Unseen (g : Config → Config) : Prop where
  name : ∀ config, (g config).name = config.name
  trace : ∀ config, (g config).trace = config.trace

namespace Machine
variable {m : Machine} {g : Config → Config}

/-- The machine with other settings. -/
def reconfigured (g : Config → Config) (m : Machine) : Machine := { m with config := g m.config }

theorem name_reconfigured (unseen : Config.Unseen g) (m : Machine) : (m.reconfigured g).name = m.name :=
  unseen.name m.config

theorem traceEvents_reconfigured (unseen : Config.Unseen g) (m : Machine) (i : Instruction) :
    (m.reconfigured g).traceEvents i = m.traceEvents i := by
  have trace : (m.reconfigured g).config.trace = m.config.trace := unseen.trace m.config
  unfold traceEvents
  rw [trace, name_reconfigured unseen]
  rfl

theorem dispatch_reconfigured (unseen : Config.Unseen g) (m : Machine) :
    (m.reconfigured g).dispatch = m.dispatch.map (·.reconfigured g) := by
  have name := name_reconfigured unseen m
  have events := traceEvents_reconfigured unseen m
  cases fetched : m.fetch with
  | error fault =>
    rw [dispatch_of_unfetched fetched, dispatch_of_unfetched (m := m.reconfigured g) fetched, name]
    rfl
  | ok i =>
    cases evaluated : i.evaluate m.relativeBase m.memory with
    | ok effect memory =>
      rw [dispatch_of_evaluated fetched evaluated, dispatch_of_evaluated (m := m.reconfigured g) fetched evaluated,
        events]
      rfl
    | error fault memory =>
      rw [dispatch_of_faulted fetched evaluated, dispatch_of_faulted (m := m.reconfigured g) fetched evaluated, name,
        events]
      rfl

private theorem settle_reconfigured (unseen : Config.Unseen g) {p : Pending} (events : Array Event)
    (queued : (∃ dest, p.effect = .input dest) → m.channel.input ≠ []) :
    (m.reconfigured g).settle p events = (m.settle p events).map (·.reconfigured g) := by
  cases effect : p.effect with
  | advance | jump | rebase | output =>
    unfold settle
    rw [effect]
    rfl
  | halt =>
    rw [settle_of_halt effect, settle_of_halt effect]
    unfold finish
    rw [name_reconfigured unseen]
    simp only [reconfigured]
    cases m.channel.transition? .running .ended <;> rfl
  | input dest =>
    obtain ⟨word, rest, front⟩ := List.exists_cons_of_ne_nil (queued ⟨dest, effect⟩)
    unfold settle
    simp only [effect, readInput_of_queued front, readInput_of_queued (m := m.reconfigured g) front]
    cases m with | mk config memory ip relativeBase channel steps outputCount lastOutput =>
    simp only [receive, reconfigured, withInput, mapChannel, unseen.name]
    cases Memory.store dest relativeBase word memory <;> rfl

/-- The other settings only matter to an input instruction that finds no word. -/
theorem cycle_reconfigured (unseen : Config.Unseen g) (served : ¬ m.Starving) :
    (m.reconfigured g).cycle = m.cycle.map (·.reconfigured g) := by
  have framed := dispatch_reconfigured unseen m
  rcases m.dispatch_cases with
    ⟨i, effect, memory, events, fetched, evaluated, dispatched⟩ | ⟨text, fault, memory, ip, events, struck⟩
  · rw [dispatched] at framed
    rw [cycle_of_dispatched framed, cycle_of_dispatched dispatched]
    refine settle_reconfigured unseen events ?_
    rintro ⟨dest, rfl⟩ empty
    obtain ⟨rfl, -⟩ := Instruction.evaluate_input evaluated
    exact served ⟨⟨dest, fetched⟩, empty⟩
  · rw [struck] at framed
    rw [cycle_of_struck framed, cycle_of_struck struck]
    rfl

end Machine

end IntegerMachine
