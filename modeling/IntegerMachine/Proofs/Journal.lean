import IntegerMachine.Proofs.Lifecycle
import Mathlib.Logic.Relation

/-!
# Journals

A journal of calls on a machine and on its channel keeps how each call came out, the words that have been fed to
the machine and those that have been taken from it. Whatever a call does is made up of a few acts (`Act`), one
after the other (`Call.acts`). So what every act keeps is kept by every journal (`Journal.acts`), however the
machine has been driven.
-/
namespace IntegerMachine

namespace Call

/-- The words that a call puts on the input. -/
def feeds (m : Machine) : Call → List Word
  | .feed word => if m.state.isTerminal then [] else [word]
  | .feedAll words | .runWith words => if m.state.isTerminal then [] else words
  | .feedText text => if m.state.isTerminal then [] else Word.ofText text.toList
  | _ => []

/-- The words that a call takes off the output. Those that a wait has taken when it fails are lost, but taken. -/
def takes (fuel : Nat) (m : Machine) : Call → List Word
  | .tryConsume => m.channel.tryConsume.1.toList
  | .consume => m.channel.consume.1.toOption.toList
  | .consumeUpTo n => (m.channel.consumeUpTo n).1
  | .awaitOutput n => if m.channel.ioTimeout.isTimable ∧ n ≤ Word.capacity then m.output.take n else []
  | .drain => m.channel.drain.1
  | .readOutput => m.readOutput.result.toOption.getD []
  | .runWith words => ((m.runWith fuel words).bind fun o => o.result.toOption).getD []
  | _ => []

/-- A call that neither patches nor halts the machine. -/
def IsGentle : Call → Prop
  | .poke .. | .halt _ | .haltChannel => False
  | _ => True

end Call

/-- The call came to a fault. -/
def Faulted {α : Type} (result : Except Failure α) : Prop :=
  ∃ program ip text fault, result = .error (.faulted program ip text fault)

/-- A machine with the words that have been fed to it and those that have been taken from it. -/
structure Account where
  machine : Machine
  fed : List Word
  taken : List Word

namespace Account

/-- The account of a machine that has been made. -/
def opened (program : List Word) (config : Config) : Account := ⟨.ofProgram program config, [], []⟩

/-- The account once a call has left the machine `m`. -/
def after (fuel : Nat) (call : Call) (a : Account) (m : Machine) : Account :=
  ⟨m, a.fed ++ call.feeds a.machine, a.taken ++ call.takes fuel a.machine⟩

/-- The words that the machine has written: those taken, and those still on the output. -/
def emitted (a : Account) : List Word := a.taken ++ a.machine.output

end Account

/-- The calls on a machine that has been made, with how they came out, and the account they leave. -/
inductive Journal (program : List Word) (config : Config) : List (Call × Except Failure Unit) → Account → Prop
  | made : Journal program config [] (.opened program config)
  | call {calls : List (Call × Except Failure Unit)} {a : Account} {result : Except Failure Unit} {m : Machine}
      (before : Journal program config calls a) (call : Call) (fuel : Nat)
      (performed : call.perform fuel a.machine = some (result, m)) :
      Journal program config (calls ++ [(call, result)]) (a.after fuel call m)

namespace Machine

/-- The machine with only these words left on its output. -/
def leaving (m : Machine) (words : List Word) : Machine := m.mapChannel fun c => { c with output := words.toArray }

theorem output_leaving (m : Machine) (words : List Word) : (m.leaving words).output = words := rfl

theorem launched_leaving (m : Machine) (words : List Word) : (m.leaving words).launched = m.launched.leaving words :=
  launched_mapChannel (f := fun c => { c with output := words.toArray }) (fun _ => rfl) (fun _ _ => rfl) m

theorem holding_leaving {m : Machine} {words rest : List Word} (front : m.output = words ++ rest) :
    (m.leaving rest).holding words = m := by
  have same : words.toArray ++ rest.toArray = m.channel.output := by
    rw [List.append_toArray, ← front]
    rfl
  simp only [leaving, holding, mapChannel, same]

end Machine

open Machine

/-! ## Acts -/

/-- What a call does at a time, with the account that it leaves. Gentle acts neither patch nor halt the machine,
    and no fault strikes in them. -/
inductive Act (gentle : Bool) : Account → Account → Prop
  | launch {a : Account} (live : a.machine.state.isTerminal = false) :
      Act gentle a { a with machine := a.machine.launched }
  | cycle {a : Account} {step : Step} (running : a.machine.state = .running)
      (done : a.machine.cycle.result = .ok step) : Act gentle a { a with machine := a.machine.cycle.machine }
  | feed {a : Account} (words : List Word) :
      Act gentle a { a with machine := a.machine.fed words, fed := a.fed ++ words }
  | take {a : Account} {words rest : List Word} (front : a.machine.output = words ++ rest) :
      Act gentle a { a with machine := a.machine.leaving rest, taken := a.taken ++ words }
  | fault {a : Account} {failure : Failure} (harsh : gentle = false) (running : a.machine.state = .running)
      (failed : a.machine.cycle.result = .error failure) : Act gentle a { a with machine := a.machine.cycle.machine }
  | halt {a : Account} (harsh : gentle = false) : Act gentle a { a with machine := a.machine.halted }
  | poke {a : Account} (harsh : gentle = false) (made : a.machine.state = .initialising) (address : Nat)
      (word : Word) : Act gentle a { a with machine := (a.machine.poke address word).machine }

/-- Acts one after the other. -/
abbrev Acts (gentle : Bool) : Account → Account → Prop := Relation.ReflTransGen (Act gentle)

namespace Acts
variable {gentle : Bool} {m n : Machine} {fed taken : List Word}

theorem of_runs {result : Except Failure RunState} (mode : m.config.mode = .cooperative) (run : Runs m result n)
    (calm : gentle = true → ¬ Faulted result) : Acts gentle ⟨m, fed, taken⟩ ⟨n, fed, taken⟩ := by
  induction run with
  | rest => exact .refl
  | @fault m failure running failed =>
    obtain ⟨⟨text, fault, rfl⟩, -⟩ := cycle_failed mode running failed
    have harsh : gentle = false := Bool.eq_false_iff.mpr fun soft => calm soft ⟨_, _, _, _, rfl⟩
    exact .single (.fault harsh running failed)
  | cycle running done _ ih =>
    have first : Act gentle ⟨_, fed, taken⟩ _ := .cycle running done
    exact .head first (ih ((congrArg Config.mode (cycle_follows _).config).trans mode) calm)

/-- Driving a machine launches it and then runs it. -/
theorem of_resumed {fuel : Nat} {events : Array Event} {result : Except Failure RunState}
    (mode : m.config.mode = .cooperative) (live : m.state.isTerminal = false)
    (resumed : m.resume fuel = some ⟨result, n, events⟩) (calm : gentle = true → ¬ Faulted result) :
    Acts gentle ⟨m, fed, taken⟩ ⟨n, fed, taken⟩ := by
  have run := (returns_resume_iff live).mp ⟨fuel, events, resumed⟩
  have launchedMode : m.launched.config.mode = .cooperative := (congrArg Config.mode m.launched_config).trans mode
  have launch : Act gentle ⟨m, fed, taken⟩ ⟨m.launched, fed, taken⟩ := .launch live
  exact .head launch (of_runs launchedMode run calm)

theorem of_feed (words : List Word) : Acts gentle ⟨m, fed, taken⟩ ⟨m.fed words, fed ++ words, taken⟩ :=
  .single (.feed words)

theorem of_take {words rest : List Word} (front : m.output = words ++ rest) :
    Acts gentle ⟨m, fed, taken⟩ ⟨m.leaving rest, fed, taken ++ words⟩ :=
  .single (.take front)

end Acts

/-! ## The calls as acts -/

/-- Words come off the front of the output. -/
def Channel.Yields (c : Channel) (words : List Word) (c' : Channel) : Prop :=
  ∃ rest : List Word, c.output.toList = words ++ rest ∧ c' = { c with output := rest.toArray }

namespace Channel

theorem yields_nil (c : Channel) : c.Yields [] c := ⟨c.output.toList, rfl, rfl⟩

theorem yields_drop (c : Channel) (n : Nat) :
    c.Yields (c.output.toList.take n) (c.withQueued .output (c.output.toList.drop n)) :=
  ⟨_, (List.take_append_drop n _).symm, rfl⟩

theorem pop?_output_yields {c c' : Channel} {word : Word} (popped : c.pop? .output = some (word, c')) :
    c.Yields [word] c' := by
  unfold pop? queued at popped
  cases front : c.output.toList with
  | nil =>
    simp only [front] at popped
    cases popped
  | cons first rest =>
    simp only [front] at popped
    cases popped
    exact ⟨rest, front, rfl⟩

theorem tryConsume_yields (c : Channel) : c.Yields c.tryConsume.1.toList c.tryConsume.2 := by
  unfold tryConsume
  cases popped : c.pop? .output with
  | none => exact c.yields_nil
  | some front => exact pop?_output_yields popped

theorem consume_yields (c : Channel) : c.Yields c.consume.1.toOption.toList c.consume.2 := by
  unfold consume
  rcases c.wait_cases .output with ⟨word, c', popped, waited⟩ | ⟨failure, waited⟩
  · rw [waited]
    exact pop?_output_yields popped
  · rw [waited]
    exact c.yields_nil

theorem drain_yields (c : Channel) : c.Yields c.drain.1 c.drain.2 := ⟨[], (List.append_nil _).symm, rfl⟩

theorem awaitOutput_yields (c : Channel) (n : Nat) :
    c.Yields (if c.ioTimeout.isTimable ∧ n ≤ Word.capacity then c.output.toList.take n else [])
      (c.awaitOutput n).2 := by
  unfold awaitOutput
  by_cases fits : c.ioTimeout.isTimable ∧ n ≤ Word.capacity
  · rw [if_pos fits, if_pos fits]
    by_cases enough : n ≤ (c.queued .output).length
    · simp only [if_pos enough]
      exact c.yields_drop n
    · simp only [if_neg enough]
      have all : c.output.toList.take n = c.output.toList := List.take_of_length_le (Nat.le_of_not_le enough)
      rw [all]
      exact c.drain_yields
  · rw [if_neg fits, if_neg fits]
    exact c.yields_nil

end Channel

namespace Call
variable {gentle : Bool} {m m' : Machine} {fuel : Nat} {result : Except Failure Unit} {call : Call}

/-- A call comes down to acts, which feed and take the words that it feeds and takes. -/
def ActsOut (gentle : Bool) (fuel : Nat) (m : Machine) (call : Call) (m' : Machine) : Prop :=
  ∀ fed taken, Acts gentle ⟨m, fed, taken⟩ ⟨m', fed ++ call.feeds m, taken ++ call.takes fuel m⟩

namespace ActsOut

theorem of_silent (feeds : call.feeds m = []) (takes : call.takes fuel m = [])
    (acts : ∀ fed taken, Acts gentle ⟨m, fed, taken⟩ ⟨m', fed, taken⟩) : call.ActsOut gentle fuel m m' := by
  intro fed taken
  rw [feeds, takes, List.append_nil, List.append_nil]
  exact acts fed taken

theorem of_idle (feeds : call.feeds m = []) (takes : call.takes fuel m = []) : call.ActsOut gentle fuel m m :=
  of_silent feeds takes fun _ _ => .refl

theorem of_yield {channel : Channel} (feeds : call.feeds m = [])
    (yields : m.channel.Yields (call.takes fuel m) channel) : call.ActsOut gentle fuel m { m with channel } := by
  obtain ⟨rest, front, rfl⟩ := yields
  intro fed taken
  rw [feeds, List.append_nil]
  exact .of_take front

theorem of_feeding {words : List Word} (feeds : call.feeds m = if m.state.isTerminal then [] else words)
    (takes : call.takes fuel m = []) (performed : m.feeding (m.channel.feedAll words) = (result, m')) :
    call.ActsOut gentle fuel m m' := by
  cases rest : m.state.isTerminal with
  | true =>
    rw [rest, if_pos rfl] at feeds
    have same : m' = m := by
      by_cases empty : words = []
      · have fed : m.channel.feedAll words = .ok m.channel := by simp [Channel.feedAll, empty]
        rw [fed] at performed
        cases performed
        rfl
      · rw [feedAll_of_terminal rest empty] at performed
        cases performed
        rfl
    rw [same]
    exact of_idle feeds takes
  | false =>
    rw [rest, if_neg Bool.false_ne_true] at feeds
    rw [feedAll_of_live rest] at performed
    cases performed
    intro fed taken
    rw [feeds, takes, List.append_nil]
    exact .of_feed words

end ActsOut

theorem resume_actsOut (mode : m.config.mode = .cooperative)
    (performed : Call.resume.perform fuel m = some (result, m')) (calm : gentle = true → ¬ Faulted result) :
    Call.resume.ActsOut gentle fuel m m' := by
  obtain ⟨⟨answer, k, events⟩, resumed, verdict⟩ := Option.map_eq_some_iff.mp performed
  cases verdict
  cases rest : m.state.isTerminal with
  | true =>
    rw [resume_of_terminal rest] at resumed
    cases resumed
    exact .of_idle rfl rfl
  | false =>
    refine .of_silent rfl rfl fun fed taken => .of_resumed mode rest resumed fun soft faulted => calm soft ?_
    obtain ⟨program, ip, text, fault, rfl⟩ := faulted
    exact ⟨program, ip, text, fault, rfl⟩

theorem run_actsOut (mode : m.config.mode = .cooperative) (performed : Call.run.perform fuel m = some (result, m'))
    (calm : gentle = true → ¬ Faulted result) : Call.run.ActsOut gentle fuel m m' := by
  by_cases made : m.state = .initialising
  · have resumed : Call.resume.perform fuel m = some (result, m') := by
      rw [← performed]
      simp only [perform, Machine.resume, made]
    exact resume_actsOut mode resumed calm
  · have unmoved : m.channel.transition? .initialising .running = none := if_neg made
    simp only [perform, Machine.run, start, unmoved] at performed
    cases performed
    exact .of_idle rfl rfl

theorem step_actsOut (mode : m.config.mode = .cooperative) (performed : Call.step.perform fuel m = some (result, m'))
    (calm : gentle = true → ¬ Faulted result) : Call.step.ActsOut gentle fuel m m' := by
  cases performed
  cases rest : m.state.isTerminal with
  | true =>
    rw [step_of_terminal rest]
    exact .of_idle rfl rfl
  | false =>
    obtain ⟨stepped, machine⟩ := step_of_live rest
    have running := launched_running rest
    have launchedMode : m.launched.config.mode = .cooperative := (congrArg Config.mode m.launched_config).trans mode
    refine .of_silent rfl rfl fun fed taken => ?_
    have launch : Act gentle ⟨m, fed, taken⟩ ⟨m.launched, fed, taken⟩ := .launch rest
    rw [machine]
    cases cycled : m.launched.cycle.result with
    | ok step => exact .head launch (.single (.cycle running cycled))
    | error failure =>
      obtain ⟨⟨text, fault, rfl⟩, -⟩ := cycle_failed launchedMode running cycled
      have harsh : gentle = false := by
        refine Bool.eq_false_iff.mpr fun soft => calm soft ⟨m.launched.name, m.launched.ip, text, fault, ?_⟩
        rw [stepped, cycled]
        rfl
      exact .head launch (.single (.fault harsh running cycled))

theorem runWith_actsOut {words : List Word} (mode : m.config.mode = .cooperative)
    (performed : (Call.runWith words).perform fuel m = some (result, m')) (calm : gentle = true → ¬ Faulted result) :
    (Call.runWith words).ActsOut gentle fuel m m' := by
  obtain ⟨⟨answer, k, events⟩, called, verdict⟩ := Option.map_eq_some_iff.mp performed
  cases verdict
  have takes : (Call.runWith words).takes fuel m = answer.toOption.getD [] := by
    simp only [Call.takes, called]
    rfl
  cases rest : m.state.isTerminal with
  | true =>
    have feeds : (Call.runWith words).feeds m = [] := by simp only [Call.feeds, rest, if_true]
    have refused : ∃ failure, answer = .error failure ∧ k = m := by
      by_cases empty : words = []
      · have fed : m.channel.feedAll words = .ok m.channel := by simp [Channel.feedAll, empty]
        simp only [Machine.runWith, fed, resume_of_terminal rest] at called
        cases called
        exact ⟨_, rfl, rfl⟩
      · simp only [Machine.runWith, feedAll_of_terminal (c := m.channel) rest empty] at called
        cases called
        exact ⟨_, rfl, rfl⟩
    obtain ⟨failure, rfl, rfl⟩ := refused
    exact .of_idle feeds takes
  | false =>
    have feeds : (Call.runWith words).feeds m = words := by simp only [Call.feeds, rest, Bool.false_eq_true, if_false]
    rw [runWith_of_live rest] at called
    obtain ⟨⟨ran, left, more⟩, outcome, handed⟩ := Option.map_eq_some_iff.mp called
    have calmly : gentle = true → ¬ Faulted ran := by
      rintro soft ⟨program, ip, text, fault, rfl⟩
      cases handed
      exact calm soft ⟨program, ip, text, fault, rfl⟩
    intro fed taken
    have feed : Acts gentle ⟨m, fed, taken⟩ ⟨m.fed words, fed ++ words, taken⟩ := .of_feed words
    have drive : Acts gentle ⟨m.fed words, fed ++ words, taken⟩ ⟨left, fed ++ words, taken⟩ :=
      .of_resumed (m := m.fed words) mode rest outcome calmly
    rw [feeds, takes]
    cases ran with
    | error failure =>
      cases handed
      have idle : Acts gentle ⟨left, fed ++ words, taken⟩ ⟨left, fed ++ words, taken ++ []⟩ := by
        rw [List.append_nil]
      exact (feed.trans drive).trans idle
    | ok state =>
      cases handed
      have front : left.output = left.output ++ [] := (List.append_nil _).symm
      exact (feed.trans drive).trans (Acts.of_take front)

theorem halt_actsOut (feeds : call.feeds m = []) (takes : call.takes fuel m = []) (harsh : gentle = false) :
    call.ActsOut gentle fuel m m.halted :=
  .of_silent feeds takes fun _ _ => .single (.halt harsh)

theorem poke_actsOut {address : Nat} {word : Word} (harsh : gentle = false) :
    (Call.poke address word).ActsOut gentle fuel m (m.poke address word).machine := by
  by_cases made : m.state = .initialising
  · exact .of_silent rfl rfl fun _ _ => .single (.poke harsh made address word)
  · rw [show (m.poke address word).machine = m by rw [Machine.poke, if_neg made]; rfl]
    exact .of_idle rfl rfl

theorem readOutput_actsOut : Call.readOutput.ActsOut gentle fuel m m.readOutput.machine := by
  by_cases ended : m.state = .ended
  · have read : m.readOutput = ⟨.ok m.channel.drain.1, { m with channel := m.channel.drain.2 }, #[]⟩ := if_pos ended
    have yields := m.channel.drain_yields
    rw [show m.channel.drain.1 = Call.readOutput.takes fuel m by simp only [Call.takes, read]; rfl] at yields
    rw [read]
    exact .of_yield rfl yields
  · have refused : m.readOutput = m.answer (.error (m.invalidState .readOutput)) := if_neg ended
    rw [refused]
    exact .of_idle rfl (by simp only [Call.takes, refused]; rfl)

/-- Every call comes down to acts. They are gentle if the call is and comes to no fault. -/
theorem acts (mode : m.config.mode = .cooperative) (performed : call.perform fuel m = some (result, m'))
    (calm : gentle = true → call.IsGentle ∧ ¬ Faulted result) : call.ActsOut gentle fuel m m' := by
  have harsh (rough : ¬ call.IsGentle) : gentle = false := Bool.eq_false_iff.mpr fun soft => rough (calm soft).1
  cases call with
  | run => exact run_actsOut mode performed fun soft => (calm soft).2
  | resume => exact resume_actsOut mode performed fun soft => (calm soft).2
  | step => exact step_actsOut mode performed fun soft => (calm soft).2
  | runWith words => exact runWith_actsOut mode performed fun soft => (calm soft).2
  | halt silent =>
    have halted : (m.halt silent).verdict = (.ok (), m.halted) := by
      simp only [Machine.halt, Machine.halted, Machine.mapChannel]
      rcases m.channel.halt with ⟨_ | _, c⟩ <;> rfl
    simp only [perform, halted] at performed
    cases performed
    exact halt_actsOut rfl rfl (harsh id)
  | poke address word =>
    cases performed
    exact poke_actsOut (harsh id)
  | readOutput =>
    cases performed
    exact readOutput_actsOut
  | dumpAfterHalt =>
    cases performed
    exact .of_idle rfl rfl
  | feed word =>
    have fed : m.feeding (m.channel.feedAll [word]) = (result, m') := Option.some.inj performed
    exact .of_feeding rfl rfl fed
  | feedAll words => exact .of_feeding rfl rfl (Option.some.inj performed)
  | feedText text => exact .of_feeding rfl rfl (Option.some.inj performed)
  | tryConsume =>
    cases performed
    exact .of_yield rfl m.channel.tryConsume_yields
  | consume =>
    cases performed
    exact .of_yield rfl m.channel.consume_yields
  | consumeUpTo n =>
    cases performed
    exact .of_yield rfl (m.channel.yields_drop n)
  | awaitOutput n =>
    cases performed
    exact .of_yield rfl (m.channel.awaitOutput_yields n)
  | drain =>
    cases performed
    exact .of_yield rfl m.channel.drain_yields
  | haltChannel =>
    cases performed
    exact halt_actsOut rfl rfl (harsh id)

end Call

namespace Journal
variable {program : List Word} {config : Config} {calls : List (Call × Except Failure Unit)} {a : Account}

theorem config_eq (mode : config.mode = .cooperative) (journal : Journal program config calls a) :
    a.machine.config = config := by
  induction journal with
  | made => rfl
  | call before call fuel performed ih =>
    exact (Call.perform_lawful ((congrArg Config.mode ih).trans mode) performed).config.trans ih

/-- Every journal comes down to acts. They are gentle if its calls are and come to no fault. -/
theorem acts {gentle : Bool} (mode : config.mode = .cooperative) (journal : Journal program config calls a)
    (calm : gentle = true → ∀ entry ∈ calls, entry.1.IsGentle ∧ ¬ Faulted entry.2) :
    Acts gentle (.opened program config) a := by
  induction journal with
  | made => exact .refl
  | @call calls a result m before call fuel performed ih =>
    have calmBefore := fun soft entry member => calm soft entry (List.mem_append_left _ member)
    have calmHere := fun soft => calm soft (call, result) (List.mem_append_right _ (List.mem_singleton_self _))
    have hereMode := (congrArg Config.mode (before.config_eq mode)).trans mode
    exact (ih calmBefore).trans (call.acts hereMode performed calmHere a.fed a.taken)

end Journal

end IntegerMachine
