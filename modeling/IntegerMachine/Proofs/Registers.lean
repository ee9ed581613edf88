import IntegerMachine.Proofs.Growth
import IntegerMachine.Proofs.Journal

/-!
# Registers

What the registers, the counts and the memory of a machine say about one another and about the run state
(`Account.InOrder`), in every journal of calls on it (`Journal.inOrder`). The facts are carried by what a cycle
makes of a machine (`Machine.Ensues`); all other acts of a call leave the registers alone, and only a machine
that has not been started yet can be patched.
-/
namespace IntegerMachine

theorem Instruction.size_le (i : Instruction) : i.size ≤ 4 := by
  have arity := i.opcode.arity_le_three
  unfold size Opcode.size
  omega

namespace Machine

theorem fetch_eq_ok {m : Machine} {i : Instruction} (fetched : m.fetch = .ok i) :
    m.ip < m.memory.size ∧ Instruction.decode m.memory m.ip = .ok i := by
  unfold fetch at fetched
  by_cases inside : m.ip < m.memory.size
  · rw [if_pos inside] at fetched
    exact ⟨inside, fetched⟩
  · rw [if_neg inside] at fetched
    cases fetched

/-- The halt instruction stands right in front of the instruction pointer. -/
def BehindHalt (m : Machine) : Prop := ∃ last, m.ip = last + 1 ∧ Instruction.decode m.memory last = .ok .halt

/-- The counts of a machine that has written nothing more, or one word in a counted instruction. -/
def WritesOn (m m' : Machine) : Prop :=
  (m'.output = m.output ∧ m'.outputCount = m.outputCount ∧ m'.lastOutput = m.lastOutput ∧ m.steps ≤ m'.steps) ∨
  ∃ word, m'.output = m.output ++ [word] ∧ m'.outputCount = m.outputCount + 1 ∧ m'.lastOutput = some word ∧
    m'.steps = m.steps + 1

theorem WritesOn.silent {m m' : Machine} (output : m'.output = m.output) (count : m'.outputCount = m.outputCount)
    (last : m'.lastOutput = m.lastOutput) (steps : m.steps ≤ m'.steps) : WritesOn m m' :=
  .inl ⟨output, count, last, steps⟩

/-! ## What a cycle makes of a machine -/

/-- A machine that a cycle may make of the running machine `m`. -/
structure Ensues (m m' : Machine) : Prop where
  started : m'.state ≠ .initialising
  awaiting : m'.state = .awaitingInput → m'.AtInput
  ended : m'.state = .ended → m'.BehindHalt
  ip_le : m.ip ≤ m.memory.size + 3 → m'.ip ≤ m'.memory.size + 3
  writes : WritesOn m m'

namespace Ensues
variable {m m' : Machine}

theorem of_running (running : m'.state = .running) (ip_le : m.ip ≤ m.memory.size + 3 → m'.ip ≤ m'.memory.size + 3)
    (writes : WritesOn m m') : Ensues m m' where
  started := by simp [running]
  awaiting := by simp [running]
  ended := by simp [running]
  ip_le := ip_le
  writes := writes

theorem of_awaiting (awaiting : m'.state = .awaitingInput) (atInput : m'.AtInput)
    (ip_le : m.ip ≤ m.memory.size + 3 → m'.ip ≤ m'.memory.size + 3) (writes : WritesOn m m') : Ensues m m' where
  started := by simp [awaiting]
  awaiting := fun _ => atInput
  ended := by simp [awaiting]
  ip_le := ip_le
  writes := writes

theorem of_ended (ended : m'.state = .ended) (behind : m'.BehindHalt)
    (ip_le : m.ip ≤ m.memory.size + 3 → m'.ip ≤ m'.memory.size + 3) (writes : WritesOn m m') : Ensues m m' where
  started := by simp [ended]
  awaiting := by simp [ended]
  ended := fun _ => behind
  ip_le := ip_le
  writes := writes

theorem of_halted (running : m'.state = .running) (ip_le : m.ip ≤ m.memory.size + 3 → m'.ip ≤ m'.memory.size + 3)
    (writes : WritesOn m m') : Ensues m m'.halted := by
  have state : m'.halted.state = .halted := by
    rw [halted_of_live (by rw [running]; rfl)]
    rfl
  have output : m'.halted.output = m'.output := by
    rw [halted_of_live (by rw [running]; rfl)]
    rfl
  refine ⟨by simp [state], by simp [state], by simp [state], ip_le, ?_⟩
  unfold WritesOn at writes ⊢
  rw [output]
  exact writes

end Ensues

section
variable {m : Machine} {i : Instruction} {memory : Memory}

theorem ip_le_of_fetched (fetched : m.fetch = .ok i) {size : Nat} (grown : m.memory.size ≤ size) :
    m.ip + i.size ≤ size + 3 := by
  have inside := (fetch_eq_ok fetched).1
  have width := i.size_le
  omega

/-- Settling the effect of the instruction that has just been fetched and evaluated. -/
theorem settle_ensues {effect : Effect} (running : m.state = .running) (fetched : m.fetch = .ok i)
    (asks : i.Asks m.memory memory effect) (grown : m.memory.size ≤ memory.size) (events : Array Event) :
    Ensues m (settle { m with memory, ip := m.ip + i.size } ⟨m.ip, i, effect⟩ events).machine := by
  have near : m.ip + i.size ≤ memory.size + 3 := ip_le_of_fetched fetched grown
  have kept := settle_grows { m with memory, ip := m.ip + i.size } ⟨m.ip, i, effect⟩ events
  have reached : m.ip + i.size ≤ _ + 3 := ip_le_of_fetched fetched (grown.trans kept.size_le)
  cases effect with
  | advance | rebase => exact .of_running running (fun _ => near) (.silent rfl rfl rfl (Nat.le_succ _))
  | jump target =>
    have inside : target < memory.size := asks
    refine .of_running running (fun _ => ?_) (.silent rfl rfl rfl (Nat.le_succ _))
    change target ≤ memory.size + 3
    omega
  | output word =>
    refine .of_running running (fun _ => near) (.inr ⟨word, ?_, rfl, rfl, rfl⟩)
    simp [settle, counted, emit, Channel.emit, output]
  | halt =>
    obtain ⟨rfl, rfl⟩ := asks
    obtain ⟨more, finished⟩ :=
      finish_of_running (m := { m with ip := m.ip + Instruction.halt.size }) running m.ip events
    have behind := (fetch_eq_ok fetched).2
    rw [settle_of_halt rfl, finished]
    exact .of_ended rfl ⟨m.ip, rfl, behind⟩ (fun _ => near) (.silent rfl rfl rfl (Nat.le_succ _))
  | input dest =>
    obtain ⟨rfl, rfl⟩ := asks
    obtain ⟨input, ⟨-, found⟩ | ⟨_, -, found⟩ | ⟨memory, found⟩ | ⟨memory, fault, found⟩⟩ :=
      settle_input_cases (p := ⟨m.ip, .input dest, .input dest⟩) rfl
        { m with ip := m.ip + (Instruction.input dest).size } events
    · rw [found]
      rcases suspend_cases (withInput _ input) m.ip events with ⟨-, more, suspended⟩ | ⟨stopped, -⟩
      · rw [suspended]
        exact .of_awaiting rfl ⟨dest, fetched⟩ id (.silent rfl rfl rfl (Nat.le_refl _))
      · exact absurd running stopped
    · rw [found]
      exact .of_running running id (.silent rfl rfl rfl (Nat.le_refl _))
    · rw [found] at reached ⊢
      exact .of_running running (fun _ => reached) (.silent rfl rfl rfl (Nat.le_succ _))
    · rw [found] at reached ⊢
      exact .of_halted running (fun _ => reached) (.silent rfl rfl rfl (Nat.le_refl _))

end

theorem cycle_ensues {m : Machine} (running : m.state = .running) : Ensues m m.cycle.machine := by
  have grown := m.dispatch_grows.size_le
  cases fetched : m.fetch with
  | error fault =>
    rw [cycle_of_struck (dispatch_of_unfetched fetched)]
    exact .of_halted running id (.silent rfl rfl rfl (Nat.le_refl _))
  | ok i =>
    cases evaluated : i.evaluate m.relativeBase m.memory with
    | ok effect memory =>
      have dispatched := dispatch_of_evaluated fetched evaluated
      rw [dispatched] at grown
      rw [cycle_of_dispatched dispatched]
      exact settle_ensues running fetched (Instruction.asks_of_evaluate evaluated) grown _
    | error fault memory =>
      have dispatched := dispatch_of_faulted fetched evaluated
      rw [dispatched] at grown
      rw [cycle_of_struck dispatched]
      have near : m.ip + i.size ≤ memory.size + 3 := ip_le_of_fetched fetched grown
      exact .of_halted running (fun _ => near) (.silent rfl rfl rfl (Nat.le_refl _))

theorem launched_kept (m : Machine) :
    m.launched.memory = m.memory ∧ m.launched.ip ≤ m.ip ∧ m.launched.steps = m.steps ∧
      m.launched.outputCount = m.outputCount ∧ m.launched.lastOutput = m.lastOutput := by
  unfold launched
  cases m.state with
  | initialising => exact ⟨rfl, Nat.zero_le _, rfl, rfl, rfl⟩
  | running | awaitingInput | ended | halted => exact ⟨rfl, Nat.le_refl _, rfl, rfl, rfl⟩

/-- Patching a machine that has been made changes memory alone. -/
theorem poke_machine {m : Machine} (made : m.state = .initialising) (address : Nat) (word : Word) :
    (m.poke address word).machine = { m with memory := Memory.left (Memory.poke address word) m.memory } := by
  unfold poke Memory.left
  rw [if_pos made]
  cases Memory.poke address word m.memory with
  | ok previous memory => rfl
  | error fault memory => rfl

end Machine

open Machine

/-! ## Acts -/

/-- What the registers, the counts and the memory of a machine say about one another and about its run state. -/
structure Account.InOrder (a : Account) : Prop where
  made : a.machine.state = .initialising → a.machine.ip = 0 ∧ a.machine.relativeBase = 0 ∧ a.machine.steps = 0 ∧
    a.machine.outputCount = 0 ∧ a.machine.lastOutput = none
  awaiting : a.machine.state = .awaitingInput →
    ∃ dest, Instruction.decode a.machine.memory a.machine.ip = .ok (.input dest)
  ended : a.machine.state = .ended → a.machine.BehindHalt
  ip_le : a.machine.ip ≤ a.machine.memory.size + 3
  counted : a.machine.outputCount = a.emitted.length
  count_le : a.machine.outputCount ≤ a.machine.steps
  last : a.machine.lastOutput = a.emitted.getLast?

namespace Account.InOrder
variable {a a' : Account}

theorem opened (program : List Word) (config : Config) : (Account.opened program config).InOrder where
  made _ := ⟨rfl, rfl, rfl, rfl, rfl⟩
  awaiting := nofun
  ended := nofun
  ip_le := Nat.zero_le _
  counted := rfl
  count_le := Nat.le_refl _
  last := rfl

/-- An act that leaves the program and the run state alone. -/
theorem of_still (order : a.InOrder) (same : SameProgress a.machine a'.machine)
    (state : a'.machine.state = a.machine.state) (emitted : a'.emitted = a.emitted) : a'.InOrder := by
  obtain ⟨memory, ip, relativeBase, steps, outputCount, lastOutput⟩ := same
  refine ⟨?_, ?_, ?_, ?_, ?_, ?_, ?_⟩
  · rw [state, ip, relativeBase, steps, outputCount, lastOutput]
    exact order.made
  · rw [state, memory, ip]
    exact order.awaiting
  · unfold BehindHalt
    rw [state, memory, ip]
    exact order.ended
  · rw [memory, ip]
    exact order.ip_le
  · rw [outputCount, emitted]
    exact order.counted
  · rw [outputCount, steps]
    exact order.count_le
  · rw [lastOutput, emitted]
    exact order.last

/-- An act that sets a machine running, or halts it. -/
theorem of_moved (order : a.InOrder) (state : a'.machine.state = .running ∨ a'.machine.state = .halted)
    (memory : a'.machine.memory = a.machine.memory) (ip : a'.machine.ip ≤ a.machine.ip)
    (steps : a'.machine.steps = a.machine.steps) (count : a'.machine.outputCount = a.machine.outputCount)
    (last : a'.machine.lastOutput = a.machine.lastOutput) (emitted : a'.emitted = a.emitted) : a'.InOrder where
  made made := by simp [made] at state
  awaiting awaiting := by simp [awaiting] at state
  ended ended := by simp [ended] at state
  ip_le := by
    rw [memory]
    exact ip.trans order.ip_le
  counted := by rw [count, emitted, order.counted]
  count_le := by
    rw [count, steps]
    exact order.count_le
  last := by rw [last, emitted, order.last]

theorem cycled (order : a.InOrder) (running : a.machine.state = .running) :
    ({ a with machine := a.machine.cycle.machine } : Account).InOrder := by
  obtain ⟨started, awaiting, ended, ip_le, writes⟩ := cycle_ensues running
  have counted := order.counted
  have count_le := order.count_le
  refine ⟨fun made => absurd made started, ?_, ended, ip_le order.ip_le, ?_, ?_, ?_⟩
  · intro state
    obtain ⟨dest, fetched⟩ := awaiting state
    exact ⟨dest, (fetch_eq_ok fetched).2⟩
  · unfold Account.emitted at counted ⊢
    rcases writes with ⟨output, count, -⟩ | ⟨word, output, count, -⟩
    · rw [output, count, counted]
    · simp only [output, count, counted, List.length_append, List.length_singleton]
      omega
  · rcases writes with ⟨-, count, -, steps⟩ | ⟨word, -, count, -, steps⟩
    · simp only [count]
      omega
    · simp only [count, steps]
      omega
  · have last := order.last
    unfold Account.emitted at last ⊢
    rcases writes with ⟨output, -, same, -⟩ | ⟨word, output, -, same, -⟩
    · rw [output, same, last]
    · simp only [output, same, ← List.append_assoc, List.getLast?_concat]

theorem act {gentle : Bool} (act : Act gentle a a') (order : a.InOrder) : a'.InOrder := by
  cases act with
  | launch live =>
    obtain ⟨memory, ip, steps, count, last⟩ := a.machine.launched_kept
    exact order.of_moved (.inl (launched_running live)) memory ip steps count last
      (congrArg (a.taken ++ ·) a.machine.launched_output)
  | cycle running done => exact order.cycled running
  | fault harsh running failed => exact order.cycled running
  | feed words => exact order.of_still ⟨rfl, rfl, rfl, rfl, rfl, rfl⟩ rfl rfl
  | @take words rest front =>
    refine order.of_still ⟨rfl, rfl, rfl, rfl, rfl, rfl⟩ rfl ?_
    unfold Account.emitted
    rw [front, output_leaving, List.append_assoc]
  | halt harsh =>
    cases atRest : a.machine.state.isTerminal with
    | true =>
      rw [halted_of_terminal atRest]
      exact order
    | false =>
      rw [halted_of_live atRest]
      exact order.of_moved (.inr rfl) rfl (Nat.le_refl _) rfl rfl rfl rfl
  | poke harsh made address word =>
    obtain ⟨ip, registers⟩ := order.made made
    rw [poke_machine made]
    have inside : a.machine.ip ≤ (Memory.left (Memory.poke address word) a.machine.memory).size + 3 := by
      rw [ip]
      exact Nat.zero_le _
    refine ⟨fun _ => ⟨ip, registers⟩, ?_, ?_, inside, order.counted, order.count_le, order.last⟩
    · intro awaiting
      cases made.symm.trans awaiting
    · intro ended
      cases made.symm.trans ended

theorem acts {gentle : Bool} (order : a.InOrder) (acts : Acts gentle a a') : a'.InOrder := by
  induction acts with
  | refl => exact order
  | tail _ last ih => exact ih.act last

end Account.InOrder

theorem Act.grows {gentle : Bool} {a a' : Account} (act : Act gentle a a') :
    a.machine.memory.Grows a'.machine.memory := by
  cases act with
  | launch live =>
    rw [show a.machine.launched.memory = a.machine.memory from a.machine.launched_kept.1]
    exact .refl _
  | cycle running done => exact a.machine.cycle_grows
  | fault harsh running failed => exact a.machine.cycle_grows
  | feed words => exact .refl _
  | take front => exact .refl _
  | halt harsh => exact .refl _
  | poke harsh made address word =>
    rw [poke_machine made]
    exact Memory.growing_poke address word a.machine.memory

theorem Acts.grows {gentle : Bool} {a a' : Account} (acts : Acts gentle a a') :
    a.machine.memory.Grows a'.machine.memory := by
  induction acts with
  | refl => exact .refl _
  | tail _ last ih => exact ih.trans last.grows

/-! ## Journals -/

namespace Journal
variable {program : List Word} {config : Config} {calls : List (Call × Except Failure Unit)} {a : Account}

/-- In every journal of a cooperative machine the registers, the counts and memory are in order, the cells shown
    once the program has ended begin right behind the halt instruction that has ended it, memory has grown at most
    up to its limit, and no further call shrinks it. -/
theorem inOrder (mode : config.mode = .cooperative) (journal : Journal program config calls a) :
    a.InOrder ∧
    (a.machine.state = .ended →
      a.machine.dumpAfterHalt = .ok (a.machine.dumpRange a.machine.ip a.machine.memory.size)) ∧
    a.machine.memory.size ≤ max program.length config.maxMemory ∧
    ∀ call fuel result m', Call.perform fuel a.machine call = some (result, m') →
      a.machine.memory.size ≤ m'.memory.size := by
  have acts : Acts false (.opened program config) a := journal.acts mode nofun
  have order := (Account.InOrder.opened program config).acts acts
  refine ⟨order, fun ended => if_pos ended, acts.grows.bounded, ?_⟩
  intro call fuel result m' performed
  have mode : a.machine.config.mode = .cooperative := (congrArg Config.mode (journal.config_eq mode)).trans mode
  have further : call.ActsOut false fuel a.machine m' := call.acts mode performed nofun
  exact (further a.fed a.taken).grows.size_le

/-- A program that hands one word on ends with its pointer right behind its last cell. -/
theorem inOrder_relay :
    ∃ a, Journal [3, 0, 4, 0, 99] {} [(.run, .ok ()), (.feed 5, .ok ()), (.resume, .ok ()), (.tryConsume, .ok ())] a ∧
      a.machine.state = .ended ∧ a.taken = [5] ∧ a.machine.ip = 5 ∧ a.machine.BehindHalt ∧
      a.machine.outputCount = a.emitted.length ∧ a.machine.lastOutput = a.emitted.getLast? := by
  obtain ⟨a, journal, ended, taken, ip⟩ : ∃ a, Journal [3, 0, 4, 0, 99] {}
      [(.run, .ok ()), (.feed 5, .ok ()), (.resume, .ok ()), (.tryConsume, .ok ())] a ∧
      a.machine.state = .ended ∧ a.taken = [5] ∧ a.machine.ip = 5 := by
    have opened : Journal [3, 0, 4, 0, 99] {} [] _ := .made
    have fed := (opened.call .run 10 rfl).call (.feed 5) 0 rfl
    have finished := (fed.call .resume 10 rfl).call .tryConsume 0 rfl
    exact ⟨_, finished, rfl, rfl, rfl⟩
  obtain ⟨order, -⟩ := inOrder rfl journal
  exact ⟨a, journal, ended, taken, ip, order.ended ended, order.counted, order.last⟩

end Journal

end IntegerMachine
