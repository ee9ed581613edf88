import IntegerMachine.Proofs.Padding
import IntegerMachine.Proofs.Transcript

/-!
# What a fault leaves behind

A fault may strike after an instruction has read some of its arguments, so that memory may have grown, and after an
input instruction has taken a word. Apart from that it only halts the machine: no cell has another value, and nothing is
counted or written (`Machine.cycle_spares`). The reason is the same for all instructions: they read first, and a write
is the last thing they do and fails before it has changed anything (`Instruction.sparing_evaluate`).
-/
namespace IntegerMachine

namespace Memory

/-- A computation that changes no value of a cell, whether it faults or not. -/
def Reading {α : Type} (x : EStateM Fault Memory α) : Prop :=
  ∀ mem address, (left x mem).peek address = mem.peek address

/-- A computation that changes no value of a cell if it faults. -/
def Sparing {α : Type} (x : EStateM Fault Memory α) : Prop :=
  ∀ mem fault mem', x mem = .error fault mem' → ∀ address, mem'.peek address = mem.peek address

section
variable {α β : Type} {x : EStateM Fault Memory α} {f : α → EStateM Fault Memory β}

theorem Reading.sparing (reading : Reading x) : Sparing x := by
  intro mem fault mem' faulted address
  rw [← reading mem address, left, faulted]

theorem sparing_pure (a : α) : Sparing (pure a : EStateM Fault Memory α) := nofun

theorem sparing_throw (fault : Fault) : Sparing (throw fault : EStateM Fault Memory α) := by
  intro mem _ mem' faulted address
  cases faulted
  rfl

theorem bind_error {mem mem' : Memory} {fault : Fault} (faulted : (x >>= f) mem = .error fault mem') :
    x mem = .error fault mem' ∨ ∃ a between, x mem = .ok a between ∧ f a between = .error fault mem' := by
  change EStateM.bind x f mem = .error fault mem' at faulted
  unfold EStateM.bind at faulted
  cases first : x mem with
  | ok a between => exact .inr ⟨a, between, rfl, by simpa only [first] using faulted⟩
  | error struck between =>
    simp only [first] at faulted
    cases faulted
    exact .inl rfl

theorem Reading.bind (first : Reading x) (later : ∀ a, Sparing (f a)) : Sparing (x >>= f) := by
  intro mem fault mem' faulted address
  rcases bind_error faulted with struck | ⟨a, between, read, struck⟩
  · exact first.sparing mem fault mem' struck address
  -- The first part may have grown memory, but all cells read as before.
  · have kept := first mem address
    rw [left, read] at kept
    exact (later a between fault mem' struck address).trans kept

/-- What cannot fault may follow upon anything. -/
theorem Sparing.bind_pure (sparing : Sparing x) (b : β) : Sparing (x >>= fun _ => pure b) := by
  intro mem fault mem' faulted address
  rcases bind_error faulted with struck | ⟨a, between, -, struck⟩
  · exact sparing mem fault mem' struck address
  · cases struck

end

theorem reading_load (a : Argument) (relativeBase : Word) : Reading (load a relativeBase) := by
  intro mem address
  unfold left load
  cases a.effectiveAddress relativeBase with
  | none => rfl
  | some word =>
    simp only
    cases Memory.address word with
    | error fault => rfl
    | ok cell =>
      simp only [readCell]
      cases mem.refusal? cell with
      | some fault => rfl
      | none => exact mem.peek_reach cell address

/-- A store that faults leaves memory as it was. -/
theorem store_error {a : Argument} {relativeBase value : Word} {mem mem' : Memory} {fault : Fault}
    (faulted : store a relativeBase value mem = .error fault mem') : mem' = mem := by
  unfold store at faulted
  cases found : a.effectiveAddress relativeBase with
  | none =>
    rw [found] at faulted
    cases faulted
    rfl
  | some word =>
    simp only [found] at faulted
    cases named : Memory.address word with
    | error fault =>
      simp only [named] at faulted
      cases faulted
      rfl
    | ok cell =>
      simp only [named, poke] at faulted
      cases refused : mem.refusal? cell with
      | some fault =>
        simp only [refused] at faulted
        cases faulted
        rfl
      | none =>
        simp only [refused] at faulted
        cases faulted

theorem sparing_store (a : Argument) (relativeBase value : Word) : Sparing (store a relativeBase value) := by
  intro mem fault mem' faulted address
  rw [store_error faulted]

end Memory

open Memory (Reading Sparing reading_load sparing_pure sparing_throw sparing_store)

/-! ## Instructions -/

namespace Effect

theorem sparing_combine (f : Word → Word → Word) (lhs rhs dest : Argument) (relativeBase : Word) :
    Sparing (combine f lhs rhs dest relativeBase) :=
  (reading_load lhs relativeBase).bind fun _ => (reading_load rhs relativeBase).bind fun _ =>
    (sparing_store dest relativeBase _).bind_pure _

theorem sparing_jumpTo (target : Argument) (relativeBase : Word) : Sparing (jumpTo target relativeBase) := by
  have got : Reading (get : EStateM Fault Memory Memory) := fun _ _ => rfl
  refine (reading_load target relativeBase).bind fun word => got.bind fun mem => ?_
  split
  · split
    · exact sparing_pure _
    · exact sparing_throw _
  · exact sparing_throw _

theorem sparing_jumpWhen (test : Word → Bool) (condition target : Argument) (relativeBase : Word) :
    Sparing (jumpWhen test condition target relativeBase) := by
  refine (reading_load condition relativeBase).bind fun x => ?_
  split
  · exact sparing_jumpTo target relativeBase
  · exact sparing_pure _

end Effect

/-- An instruction that faults while it is evaluated has changed no value of a cell. -/
theorem Instruction.sparing_evaluate (i : Instruction) (relativeBase : Word) : Sparing (i.evaluate relativeBase) := by
  cases i with
  | add | multiply | lessThan | equals => exact Effect.sparing_combine _ _ _ _ relativeBase
  | jumpIfTrue | jumpIfFalse => exact Effect.sparing_jumpWhen _ _ _ relativeBase
  | input | halt => exact sparing_pure _
  | output source => exact (reading_load source relativeBase).bind fun _ => sparing_pure _
  | adjustRelativeBase offset => exact (reading_load offset relativeBase).bind fun _ => sparing_pure _

/-! ## Cycles -/

namespace Machine

/-- Where a cycle faults: the words of input it has taken by then, what it reports of the instruction, and the fault.
    Only an input instruction has taken a word, the first one that was queued. -/
inductive Strikes (m : Machine) : List Word → String → Fault → Prop
  /-- There is no instruction to be fetched. -/
  | fetching {fault : Fault} (unfetched : m.fetch = .error fault) :
    Strikes m [] ("word " ++ (m.memory.peek m.ip).text) fault
  /-- An argument cannot be read, a result cannot be stored, or a jump leads nowhere. -/
  | evaluating {i : Instruction} {fault : Fault} {memory : Memory} (fetched : m.fetch = .ok i)
    (faulted : i.evaluate m.relativeBase m.memory = .error fault memory) : Strikes m [] i.text fault
  /-- A word that has been received cannot be stored. -/
  | storing {dest : Argument} {word : Word} {fault : Fault} (fetched : m.fetch = .ok (.input dest))
    (received : m.channel.input.head?.or m.config.defaultInput = some word)
    (refused : Memory.store dest m.relativeBase word m.memory = .error fault m.memory) :
    Strikes m (m.channel.input.take 1) (Instruction.input dest).text fault

/-- `m'` is `m` after a fault: it has halted and lost the words of input taken by then, and memory may have grown. -/
structure Spares (m : Machine) (taken : List Word) (m' : Machine) : Prop where
  peek : ∀ address, m'.memory.peek address = m.memory.peek address
  size_le : m.memory.size ≤ m'.memory.size
  relativeBase : m'.relativeBase = m.relativeBase
  steps : m'.steps = m.steps
  outputCount : m'.outputCount = m.outputCount
  lastOutput : m'.lastOutput = m.lastOutput
  output : m'.channel.output = m.channel.output
  input : m.channel.input = taken ++ m'.channel.input
  state : m'.state = .halted

theorem halted_state {m : Machine} (unended : m.state ≠ .ended) : m.halted.state = .halted := by
  cases rest : m.state.isTerminal with
  | true =>
    rw [halted_of_terminal rest]
    cases state : m.state <;> simp_all [RunState.isTerminal]
  | false =>
    rw [halted_of_live rest]
    rfl

/-- Halting a machine of which nothing but memory, the pointer and the input has changed. -/
theorem spares_of_halted {m : Machine} {memory : Memory} {taken left : List Word} (ip : Nat)
    (unended : m.state ≠ .ended) (peek : ∀ address, memory.peek address = m.memory.peek address)
    (size_le : m.memory.size ≤ memory.size) (input : m.channel.input = taken ++ left) :
    Spares m taken (halted { m.withInput left with memory, ip }) := by
  have state : (halted { m.withInput left with memory, ip }).state = .halted := halted_state unended
  refine ⟨peek, size_le, rfl, rfl, rfl, rfl, ?_, ?_, state⟩
  · have output := halted_output { m.withInput left with memory, ip }
    exact Array.toList_inj.mp output
  · rw [halted_input]
    exact input

/-- A word that is read is the first one queued, or else the default. Without either there is none, or the wait for
    one fails. -/
theorem readInput_cases (m : Machine) :
    (∃ word, m.channel.input.head?.or m.config.defaultInput = some word ∧ m.readInput.1 = .ok (some word)) ∨
    m.channel.input.head?.or m.config.defaultInput = none ∧
      (m.readInput.1 = .ok none ∨ ∃ failure, m.readInput.1 = .error failure ∧ failure.fault? = none) := by
  rcases front : m.channel.input with _ | ⟨first, rest⟩
  · have empty := Channel.pop?_input_eq_none.mpr front
    simp only [readInput, empty, Channel.wait_of_none empty]
    cases m.config.defaultInput with
    | some word => exact .inl ⟨word, rfl, rfl⟩
    | none =>
      refine .inr ⟨rfl, ?_⟩
      cases m.config.mode with
      | cooperative => exact .inl rfl
      | worker =>
        unfold Channel.denial Channel.starved
        cases m.channel.ioTimeout.isTimable with
        | false => exact .inr ⟨_, rfl, rfl⟩
        | true =>
          cases m.channel.state.isTerminal with
          | true => exact .inl rfl
          | false => exact .inr ⟨_, rfl, rfl⟩
  · rw [readInput_of_queued front]
    exact .inl ⟨first, rfl, rfl⟩

/-- Receiving a word fails where it cannot be stored, and changes nothing then. -/
theorem receive_error {m m' : Machine} {start : Nat} {i : Instruction} {dest : Argument} {word : Word}
    {failure : Failure} (refused : m.receive start i dest word = (.error failure, m')) :
    ∃ fault, Memory.store dest m.relativeBase word m.memory = .error fault m.memory ∧
      failure = .faulted m.name start i.text fault ∧ m' = m := by
  cases m with | mk config memory ip relativeBase channel steps outputCount lastOutput =>
  unfold receive at refused
  simp only at refused ⊢
  cases stored : Memory.store dest relativeBase word memory with
  | ok previous memory' =>
    rw [stored] at refused
    cases refused
  | error fault memory' =>
    obtain rfl := Memory.store_error stored
    rw [stored] at refused
    cases refused
    exact ⟨fault, rfl, rfl, rfl⟩

/-- A fault in settling is that of an input instruction which cannot store the word it has received. -/
theorem settle_faulted {m : Machine} {p : Pending} {events : Array Event} {failure : Failure} {fault : Fault}
    (failed : (m.settle p events).result = .error failure) (faulted : failure.fault? = some fault) :
    ∃ dest word, p.effect = .input dest ∧ m.channel.input.head?.or m.config.defaultInput = some word ∧
      Memory.store dest m.relativeBase word m.memory = .error fault m.memory ∧
      failure = .faulted m.name p.start p.instruction.text fault ∧
      (m.settle p events).machine = (m.withInput (m.channel.input.drop 1)).halted := by
  cases effect : p.effect with
  | advance | jump | rebase | output =>
    unfold settle at failed
    rw [effect] at failed
    cases failed
  | halt =>
    rw [settle_of_halt effect] at failed
    rcases m.finish_cases p.start events with ⟨-, more, finished⟩ | ⟨-, finished⟩
    · rw [finished] at failed
      cases failed
    · rw [finished] at failed
      cases failed
  | input dest =>
    have left := m.readInput_left
    rcases read : m.readInput with ⟨result, m'⟩
    obtain rfl : m' = m.withInput (m.channel.input.drop 1) := by rw [← left, read]
    rcases m.readInput_cases with ⟨word, word?, came⟩ | ⟨-, came | ⟨waited, came, unfaulted⟩⟩
    · obtain rfl : result = .ok (some word) := by rw [← came, read]
      rcases received : (m.withInput (m.channel.input.drop 1)).receive p.start p.instruction dest word with
        ⟨struck | _, m''⟩
      · obtain ⟨fault', refused, rfl, rfl⟩ := receive_error received
        rw [settle_of_refused effect read received] at failed ⊢
        cases failed
        cases faulted
        exact ⟨dest, word, rfl, word?, refused, rfl, rfl⟩
      · rw [settle_of_received effect read received] at failed
        cases failed
    · obtain rfl : result = .ok none := by rw [← came, read]
      rw [settle_of_missing effect read] at failed
      rcases suspend_cases (m.withInput _) p.start events with ⟨-, more, suspended⟩ | ⟨-, suspended⟩
      · rw [suspended] at failed
        cases failed
      · rw [suspended] at failed
        cases failed
    · obtain rfl : result = .error waited := by rw [← came, read]
      rw [settle_of_waited effect read] at failed
      cases failed
      cases unfaulted.symm.trans faulted

/-- A fault has no effect but halting. A cycle that fails by a fault, of a machine that its program has not ended, names
    the program, the address of the instruction and the fault. Every cell reads as before, nothing is counted, nothing
    is written, the relative base stays, and the machine is halted. Input is taken only where an input instruction
    cannot store the word it has received, and then it is the first word that was queued, if there was one. -/
theorem cycle_spares {m : Machine} {failure : Failure} {fault : Fault} (unended : m.state ≠ .ended)
    (failed : m.cycle.result = .error failure) (faulted : failure.fault? = some fault) :
    ∃ taken text, Strikes m taken text fault ∧ failure = .faulted m.name m.ip text fault ∧
      Spares m taken m.cycle.machine := by
  cases fetched : m.fetch with
  | error struck =>
    rw [cycle_of_struck (dispatch_of_unfetched fetched)] at failed ⊢
    cases failed
    cases faulted
    exact ⟨[], _, .fetching fetched, rfl,
      spares_of_halted m.ip unended (fun _ => rfl) (Nat.le_refl _) rfl⟩
  | ok i =>
    cases evaluated : i.evaluate m.relativeBase m.memory with
    | error struck memory =>
      have grows := i.growing_evaluate m.relativeBase m.memory
      unfold Memory.left at grows
      rw [evaluated] at grows
      rw [cycle_of_struck (dispatch_of_faulted fetched evaluated)] at failed ⊢
      cases failed
      cases faulted
      exact ⟨[], _, .evaluating fetched evaluated, rfl,
        spares_of_halted _ unended (i.sparing_evaluate _ _ _ _ evaluated) grows.size_le rfl⟩
    | ok effect memory =>
      rw [cycle_of_dispatched (dispatch_of_evaluated fetched evaluated)] at failed ⊢
      obtain ⟨dest, word, rfl, received, refused, rfl, left⟩ := settle_faulted failed faulted
      obtain ⟨rfl, rfl⟩ := Instruction.evaluate_input evaluated
      rw [left]
      exact ⟨_, _, .storing fetched received refused, rfl,
        spares_of_halted _ unended (fun _ => rfl) (Nat.le_refl _) (List.take_append_drop 1 _).symm⟩

/-- A program that reads a word to a negative address. -/
theorem cycle_spares_input :
    let m := ((ofProgram [3, -1, 99] {}).fed [7, 8]).launched
    m.state ≠ .ended ∧
      m.cycle.result = .error (.faulted "program" 0 "Input(M[-1])" (.negativeAddress (-1))) ∧
      Spares m [7] m.cycle.machine := by
  intro m
  have unended : m.state ≠ .ended := by decide
  have failed : m.cycle.result = .error (.faulted "program" 0 "Input(M[-1])" (.negativeAddress (-1))) := by
    decide +kernel
  obtain ⟨taken, text, -, -, spares⟩ := cycle_spares unended failed rfl
  have before : m.channel.input = [7] ++ [8] := rfl
  have after : m.cycle.machine.channel.input = [8] := by decide +kernel
  have took := spares.input
  rw [before, after] at took
  obtain rfl := List.append_cancel_right took
  exact ⟨unended, failed, spares⟩

end Machine

end IntegerMachine
