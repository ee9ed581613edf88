import IntegerMachine.Proofs.Growth
import IntegerMachine.Proofs.Registers

/-!
# Zero cells at the end of a program

Cells past the end of memory read as zero, so that a program and the same program with zero cells behind it have the
same memory but for its size (`Memory.Padded`). The size is looked at in three places: when memory grows, when an
instruction is fetched and when a jump is checked. The first makes no difference. The other two may strike a fault where
the longer program goes on, to a cell that is zero and no instruction. Both programs fail then, and otherwise they
cannot be told apart (`run_padded`).
-/
namespace IntegerMachine

namespace Memory

/-! ## Cells -/

theorem peek_reach (mem : Memory) (address other : Nat) : (mem.reach address).peek other = mem.peek other := by
  unfold reach
  split
  · rfl
  · simp only [peek, Array.getD_eq_getD_getElem?, Array.getElem?_append, Array.getElem?_replicate]
    split
    · rfl
    · next outside =>
      rw [Array.getElem?_eq_none (Nat.le_of_not_lt outside)]
      split <;> rfl

theorem peek_write {mem : Memory} {address : Nat} (inside : address < mem.size) (value : Word) (other : Nat) :
    (mem.write address value).peek other = if address = other then value else mem.peek other := by
  simp only [peek, write, Array.getD_eq_getD_getElem?, Array.getElem?_setIfInBounds]
  by_cases same : address = other
  · subst same
    rw [if_pos rfl, if_pos rfl, if_pos (show address < mem.cells.size from inside)]
    rfl
  · rw [if_neg same, if_neg same]

/-! ## Padded memory -/

/-- `mem'` is `mem` with zero cells behind it, within the limit of both. -/
structure Padded (mem mem' : Memory) : Prop where
  limit : mem'.limit = mem.limit
  size_le : mem.size ≤ mem'.size
  bounded : mem'.size ≤ mem.limit
  peek : ∀ address, mem'.peek address = mem.peek address

theorem padded_ofProgram {program : List Word} {count limit : Nat} (fits : program.length + count ≤ limit) :
    Padded (ofProgram program limit) (ofProgram (program ++ List.replicate count 0) limit) where
  limit := rfl
  size_le := by simp [ofProgram, size]
  bounded := by simpa [ofProgram, size] using fits
  peek address := by
    simp only [ofProgram, peek, Array.getD_eq_getD_getElem?, List.getElem?_toArray, List.getElem?_append,
      List.getElem?_replicate]
    split
    · rfl
    · next outside =>
      rw [List.getElem?_eq_none (Nat.le_of_not_lt outside)]
      split <;> rfl

namespace Padded
variable {mem mem' : Memory}

/-- Growth may reach the same cells. -/
theorem refusal? (padded : Padded mem mem') (address : Nat) : mem'.refusal? address = mem.refusal? address := by
  have admits : mem'.admits address = mem.admits address := by
    have size_le := padded.size_le
    have bounded := padded.bounded
    unfold Memory.admits
    rw [padded.limit]
    by_cases admitted : address < mem.limit
    · simp [admitted]
    · have outside : ¬ address < mem'.size := by omega
      have outside' : ¬ address < mem.size := by omega
      simp [admitted, outside, outside']
  unfold Memory.refusal?
  rw [admits]

theorem reach (padded : Padded mem mem') {address : Nat} (unrefused : mem.refusal? address = none) :
    Padded (mem.reach address) (mem'.reach address) where
  limit := by rw [limit_reach, limit_reach, padded.limit]
  size_le := by
    have size_le := padded.size_le
    rw [size_reach, size_reach]
    omega
  bounded := by
    have size_le := padded.size_le
    have bounded := padded.bounded
    have admitted := admits_of_unrefused unrefused
    simp only [admits, Bool.or_eq_true, decide_eq_true_eq] at admitted
    rw [size_reach, limit_reach]
    omega
  peek other := by rw [peek_reach, peek_reach, padded.peek]

theorem write (padded : Padded mem mem') {address : Nat} (inside : address < mem.size) (value : Word) :
    Padded (mem.write address value) (mem'.write address value) where
  limit := padded.limit
  size_le := by
    rw [size_write, size_write]
    exact padded.size_le
  bounded := by
    rw [size_write]
    exact padded.bounded
  peek other := by
    rw [peek_write inside, peek_write (Nat.lt_of_lt_of_le inside padded.size_le), padded.peek]

/-- Padded memory decodes to the same instructions. -/
theorem decode (padded : Padded mem mem') (ip : Nat) : Instruction.decode mem' ip = Instruction.decode mem ip := by
  simp only [Instruction.decode, Instruction.argumentAt, padded.peek]

end Padded

/-! ## Computations on padded memory -/

/-- What a computation comes to on memory and on padded memory, if it cannot tell them apart. -/
inductive Agrees {α : Type} : EStateM.Result Fault Memory α → EStateM.Result Fault Memory α → Prop
  | ok (a : α) {mem mem' : Memory} (padded : Padded mem mem') : Agrees (.ok a mem) (.ok a mem')
  | error (fault : Fault) {mem mem' : Memory} (padded : Padded mem mem') :
    Agrees (.error fault mem) (.error fault mem')

variable {mem mem' : Memory}

theorem readCell_agrees (padded : Padded mem mem') (address : Nat) :
    Agrees (readCell address mem) (readCell address mem') := by
  unfold readCell
  rw [padded.refusal?]
  cases refused : mem.refusal? address with
  | some fault => exact .error fault padded
  | none =>
    have reached := padded.reach refused
    simp only [reached.peek]
    exact .ok _ reached

theorem poke_agrees (padded : Padded mem mem') (address : Nat) (value : Word) :
    Agrees (poke address value mem) (poke address value mem') := by
  unfold poke
  rw [padded.refusal?]
  cases refused : mem.refusal? address with
  | some fault => exact .error fault padded
  | none =>
    have reached := padded.reach refused
    have inside : address < (mem.reach address).size := by
      rw [size_reach]
      omega
    simp only [reached.peek]
    exact .ok _ (reached.write inside value)

theorem load_agrees (a : Argument) (relativeBase : Word) (padded : Padded mem mem') :
    Agrees (load a relativeBase mem) (load a relativeBase mem') := by
  unfold load
  cases a.effectiveAddress relativeBase with
  | none => exact .ok _ padded
  | some word =>
    simp only
    cases address word with
    | ok address => exact readCell_agrees padded address
    | error fault => exact .error fault padded

theorem store_agrees (a : Argument) (relativeBase value : Word) (padded : Padded mem mem') :
    Agrees (store a relativeBase value mem) (store a relativeBase value mem') := by
  unfold store
  cases a.effectiveAddress relativeBase with
  | none => exact .error _ padded
  | some word =>
    simp only
    cases address word with
    | ok address => exact poke_agrees padded address value
    | error fault => exact .error fault padded

end Memory

open Memory (Padded Agrees load_agrees store_agrees)

/-! ## Instructions -/

/-- What an instruction comes to on memory and on padded memory: the same, unless it is a jump into the padding. -/
inductive Effect.Parallel : EStateM.Result Fault Memory Effect → EStateM.Result Fault Memory Effect → Prop
  | agree {r r' : EStateM.Result Fault Memory Effect} (agrees : Agrees r r') : Parallel r r'
  | stray {mem mem' : Memory} (word : Word) {address : Nat} (padded : Padded mem mem')
    (outside : mem.size ≤ address) (inside : address < mem'.size) :
    Parallel (.error (.jumpOutOfBounds word) mem) (.ok (.jump address) mem')

namespace Effect

/-- A computation that is parallel on memory and on padded memory. -/
def Paired (x : EStateM Fault Memory Effect) : Prop := ∀ mem mem', Padded mem mem' → Parallel (x mem) (x mem')

theorem paired_pure (effect : Effect) : Paired (pure effect) := fun _ _ padded => .agree (.ok effect padded)

theorem Paired.bind {α : Type} {x : EStateM Fault Memory α} {f : α → EStateM Fault Memory Effect}
    (first : ∀ {mem mem'}, Padded mem mem' → Agrees (x mem) (x mem')) (later : ∀ a, Paired (f a)) :
    Paired (x >>= f) := by
  intro mem mem' padded
  have agrees := first padded
  change Parallel (EStateM.bind x f mem) (EStateM.bind x f mem')
  unfold EStateM.bind
  generalize x mem = r at agrees ⊢
  generalize x mem' = r' at agrees ⊢
  cases agrees with
  | ok a padded => exact later a _ _ padded
  | error fault padded => exact .agree (.error fault padded)

theorem paired_combine (f : Word → Word → Word) (lhs rhs dest : Argument) (relativeBase : Word) :
    Paired (combine f lhs rhs dest relativeBase) := by
  refine .bind (load_agrees lhs relativeBase) fun x => .bind (load_agrees rhs relativeBase) fun y => ?_
  exact .bind (store_agrees dest relativeBase (f x y)) fun _ => paired_pure _

/-- The check of a jump looks at the size of memory. -/
theorem paired_jumpTo (target : Argument) (relativeBase : Word) : Paired (jumpTo target relativeBase) := by
  refine .bind (load_agrees target relativeBase) fun word mem mem' padded => ?_
  cases denotes : word.toSize? with
  | none => exact .agree (.error _ padded)
  | some address =>
    change Parallel
      ((if address < mem.size then pure (jump address) else throw (.jumpOutOfBounds word) :
        EStateM Fault Memory Effect) mem)
      ((if address < mem'.size then pure (jump address) else throw (.jumpOutOfBounds word) :
        EStateM Fault Memory Effect) mem')
    have size_le := padded.size_le
    by_cases inside : address < mem.size
    · have inside' : address < mem'.size := by omega
      rw [if_pos inside, if_pos inside']
      exact .agree (.ok _ padded)
    · by_cases inside' : address < mem'.size
      · rw [if_neg inside, if_pos inside']
        exact .stray word padded (Nat.le_of_not_lt inside) inside'
      · rw [if_neg inside, if_neg inside']
        exact .agree (.error _ padded)

theorem paired_jumpWhen (test : Word → Bool) (condition target : Argument) (relativeBase : Word) :
    Paired (jumpWhen test condition target relativeBase) := by
  refine .bind (load_agrees condition relativeBase) fun x => ?_
  split
  · exact paired_jumpTo target relativeBase
  · exact paired_pure _

end Effect

theorem Instruction.paired_evaluate (i : Instruction) (relativeBase : Word) :
    Effect.Paired (i.evaluate relativeBase) := by
  cases i with
  | add | multiply | lessThan | equals => exact Effect.paired_combine _ _ _ _ relativeBase
  | jumpIfTrue | jumpIfFalse => exact Effect.paired_jumpWhen _ _ _ relativeBase
  | output source => exact .bind (load_agrees source relativeBase) fun _ => Effect.paired_pure _
  | adjustRelativeBase offset => exact .bind (load_agrees offset relativeBase) fun _ => Effect.paired_pure _
  | input | halt => exact Effect.paired_pure _

namespace Machine

/-! ## Cycles -/

/-- `m'` is `m` with padded memory. -/
structure Pads (m m' : Machine) : Prop where
  memory : Padded m.memory m'.memory
  same : m' = { m with memory := m'.memory }

/-- An instruction is next in which memory has a cell but no instruction: the word there is zero. -/
def Lost (m : Machine) : Prop := m.fetch = .error (.unknownOpcode 0)

/-- A fault that tells of the size of memory. -/
def BeyondEnd (fault : Fault) : Prop := fault = .ranOffEnd ∨ ∃ word, fault = .jumpOutOfBounds word

section
variable {m m' : Machine} {memory memory' : Memory}

theorem pads_of_padded (padded : Padded m.memory memory) : Pads m { m with memory } := ⟨padded, rfl⟩

theorem Pads.state (pads : Pads m m') : m'.state = m.state := by
  rw [pads.same]
  rfl

theorem Pads.name (pads : Pads m m') : m'.name = m.name := by
  rw [pads.same]
  rfl

theorem lost_of_padding (padded : Padded m.memory m'.memory) (outside : m.memory.size ≤ m'.ip)
    (inside : m'.ip < m'.memory.size) : m'.Lost := by
  have zero : m'.memory.peek m'.ip = 0 := by
    rw [padded.peek, Memory.peek_of_size_le outside]
  unfold Lost fetch Instruction.decode
  rw [if_pos inside, zero]
  rfl

/-- The instruction fetched is the same, unless memory has ended. -/
theorem fetch_pads (pads : Pads m m') :
    m'.fetch = m.fetch ∨ m.fetch = .error .ranOffEnd ∧ m'.Lost := by
  have ip : m'.ip = m.ip := by rw [pads.same]
  have size_le := pads.memory.size_le
  by_cases inside : m.ip < m.memory.size
  · have inside' : m.ip < m'.memory.size := by omega
    unfold fetch
    rw [ip, if_pos inside, if_pos inside', pads.memory.decode]
    exact .inl rfl
  · have ended : m.fetch = .error .ranOffEnd := if_neg inside
    by_cases inside' : m'.ip < m'.memory.size
    · exact .inr ⟨ended, lost_of_padding pads.memory (by omega) inside'⟩
    · refine .inl ?_
      rw [ended]
      exact if_neg inside'

theorem halted_pads (pads : Pads m m') : Pads m.halted m'.halted := by
  obtain ⟨padded, same⟩ := pads
  rw [same]
  exact pads_of_padded (m := m.halted) padded

/-- Reading input does not look at memory. -/
theorem readInput_pads (pads : Pads m m') :
    m'.readInput.1 = m.readInput.1 ∧ Pads m.readInput.2 m'.readInput.2 := by
  obtain ⟨padded, same⟩ := pads
  rw [same]
  generalize m'.memory = memory at padded
  unfold readInput
  simp only
  cases popped : m.channel.pop? .input with
  | some front => exact ⟨rfl, padded, rfl⟩
  | none =>
    simp only [Channel.wait_of_none popped]
    cases m.config.defaultInput with
    | some word => exact ⟨rfl, padded, rfl⟩
    | none =>
      cases m.config.mode with
      | cooperative => exact ⟨rfl, padded, rfl⟩
      | worker => cases m.channel.denial .input <;> exact ⟨rfl, padded, rfl⟩

theorem receive_pads (pads : Pads m m') (start : Nat) (i : Instruction) (dest : Argument) (word : Word) :
    (m'.receive start i dest word).1 = (m.receive start i dest word).1 ∧
      Pads (m.receive start i dest word).2 (m'.receive start i dest word).2 := by
  obtain ⟨padded, same⟩ := pads
  rw [same]
  generalize m'.memory = memory' at padded
  cases m with | mk config memory ip relativeBase channel steps outputCount lastOutput =>
  have agrees := store_agrees dest relativeBase word padded
  unfold receive
  simp only at agrees ⊢
  generalize Memory.store dest relativeBase word memory = r at agrees ⊢
  generalize Memory.store dest relativeBase word memory' = r' at agrees ⊢
  cases agrees with
  | ok previous padded => exact ⟨rfl, padded, rfl⟩
  | error fault padded => exact ⟨rfl, padded, rfl⟩

theorem suspend_pads (pads : Pads m m') (start : Nat) (events : Array Event) :
    (m'.suspend start events).result = (m.suspend start events).result ∧
      Pads (m.suspend start events).machine (m'.suspend start events).machine := by
  obtain ⟨padded, same⟩ := pads
  rw [same]
  simp only [suspend]
  cases m.channel.transition? .running .awaitingInput with
  | none => exact ⟨rfl, padded, rfl⟩
  | some channel => exact ⟨rfl, padded, rfl⟩

theorem finish_pads (pads : Pads m m') (start : Nat) (events : Array Event) :
    (m'.finish start events).result = (m.finish start events).result ∧
      Pads (m.finish start events).machine (m'.finish start events).machine := by
  obtain ⟨padded, same⟩ := pads
  rw [same]
  simp only [finish]
  cases m.channel.transition? .running .ended with
  | none => exact ⟨rfl, padded, rfl⟩
  | some channel => exact ⟨rfl, padded, rfl⟩

/-- Settling does the same on padded memory. -/
theorem settle_pads (pads : Pads m m') (p : Pending) (events : Array Event) :
    (m'.settle p events).result = (m.settle p events).result ∧
      Pads (m.settle p events).machine (m'.settle p events).machine := by
  unfold settle
  cases p.effect with
  | advance | jump | rebase | output =>
    obtain ⟨padded, same⟩ := pads
    rw [same]
    exact ⟨rfl, padded, rfl⟩
  | halt => exact finish_pads pads p.start events
  | input dest =>
    obtain ⟨same, left⟩ := readInput_pads pads
    generalize m.readInput = read at same left ⊢
    generalize m'.readInput = read' at same left ⊢
    obtain ⟨result, k⟩ := read
    obtain ⟨result', k'⟩ := read'
    obtain rfl : result' = result := same
    rcases result' with failure | _ | word
    · obtain ⟨padded, same⟩ := left
      simp only at padded same
      rw [same]
      exact ⟨rfl, padded, rfl⟩
    · exact suspend_pads left p.start events
    · obtain ⟨same, left⟩ := receive_pads left p.start p.instruction dest word
      simp only at same left ⊢
      generalize k.receive p.start p.instruction dest word = received at same left ⊢
      generalize k'.receive p.start p.instruction dest word = received' at same left ⊢
      obtain ⟨result, l⟩ := received
      obtain ⟨result', l'⟩ := received'
      obtain rfl : result' = result := same
      cases result' with
      | ok => exact ⟨rfl, left⟩
      | error failure => exact ⟨rfl, halted_pads left⟩

/-- The machine `m` fails since memory ends, where `m'` goes on to a zero cell and fails there. -/
structure Strays (m m' : Machine) : Prop where
  failed : ∃ text fault, BeyondEnd fault ∧ m.cycle.result = .error (.faulted m.name m.ip text fault)
  runs : ∃ ip text n', Runs m' (.error (.faulted m.name ip text (.unknownOpcode 0))) n' ∧
    n'.channel = m.cycle.machine.channel

theorem runs_of_lost (running : m.state = .running) (lost : m.Lost) :
    ∃ text, Runs m (.error (.faulted m.name m.ip text (.unknownOpcode 0))) m.halted := by
  have struck := cycle_of_struck (dispatch_of_unfetched lost)
  have run := Runs.fault running (congrArg Outcome.result struck)
  rw [struck] at run
  exact ⟨_, run⟩

theorem cycle_pads_of_error {fault : Fault} (pads : Pads m m') (fetched : m.fetch = .error fault)
    (fetched' : m'.fetch = .error fault) :
    m'.cycle.result = m.cycle.result ∧ Pads m.cycle.machine m'.cycle.machine := by
  rw [cycle_of_struck (dispatch_of_unfetched fetched), cycle_of_struck (dispatch_of_unfetched fetched'),
    pads.memory.peek]
  refine ⟨?_, halted_pads pads⟩
  rw [pads.same]
  rfl

/-- A machine that has jumped into the padding, where the other cannot follow. -/
theorem strays_of_jump {i : Instruction} {word : Word} {address : Nat} (running : m.state = .running)
    (pads : Pads m m') (fetched : m.fetch = .ok i) (fetched' : m'.fetch = .ok i)
    (faulted : i.evaluate m.relativeBase m.memory = .error (.jumpOutOfBounds word) memory)
    (jumps : i.evaluate m'.relativeBase m'.memory = .ok (.jump address) memory') (padded : Padded memory memory')
    (outside : memory.size ≤ address) (inside : address < memory'.size) : Strays m m' := by
  have struck := cycle_of_struck (dispatch_of_faulted fetched faulted)
  have jumped := cycle_of_dispatched (dispatch_of_evaluated fetched' jumps)
  have running' : m'.state = .running := pads.state.trans running
  refine ⟨⟨i.text, _, .inr ⟨word, rfl⟩, by rw [struck]⟩, ?_⟩
  have lost : m'.cycle.machine.Lost := by
    rw [jumped]
    exact lost_of_padding (m := { m with memory }) padded outside inside
  have state : m'.cycle.machine.state = .running := by
    rw [jumped]
    exact running'
  obtain ⟨text, run⟩ := runs_of_lost state lost
  have same : m'.cycle.machine.name = m.name ∧ m'.cycle.machine.channel = m.channel := by
    rw [jumped, pads.same]
    exact ⟨rfl, rfl⟩
  rw [same.1] at run
  refine ⟨_, text, _, .cycle running' (by rw [jumped]; rfl) run, ?_⟩
  rw [struck]
  exact congrArg (fun c => c.halt.2) same.2

/-- A machine that has run into the padding, where the other has come to the end of memory. -/
theorem strays_of_end (running : m.state = .running) (pads : Pads m m') (ended : m.fetch = .error .ranOffEnd)
    (lost : m'.Lost) : Strays m m' := by
  have struck := cycle_of_struck (dispatch_of_unfetched ended)
  have running' : m'.state = .running := pads.state.trans running
  obtain ⟨text, run⟩ := runs_of_lost running' lost
  rw [pads.name] at run
  refine ⟨⟨_, _, .inl rfl, by rw [struck]⟩, _, text, _, run, ?_⟩
  rw [struck, pads.same]
  rfl

/-- A cycle does the same on padded memory, unless it strikes a fault that only tells of the end of memory. -/
theorem cycle_pads (running : m.state = .running) (pads : Pads m m') :
    m'.cycle.result = m.cycle.result ∧ Pads m.cycle.machine m'.cycle.machine ∨ Strays m m' := by
  rcases fetch_pads pads with same | ⟨ended, lost⟩
  · cases fetched : m.fetch with
    | error fault => exact .inl (cycle_pads_of_error pads fetched (same.trans fetched))
    | ok i =>
      have fetched' := same.trans fetched
      have base : m'.relativeBase = m.relativeBase := by rw [pads.same]
      have parallel := i.paired_evaluate m.relativeBase _ _ pads.memory
      generalize evaluated : i.evaluate m.relativeBase m.memory = r at parallel
      generalize evaluated' : i.evaluate m.relativeBase m'.memory = r' at parallel
      rw [← base] at evaluated'
      cases parallel with
      | stray word padded outside inside =>
        exact .inr (strays_of_jump running pads fetched fetched' evaluated evaluated' padded outside inside)
      | agree agrees =>
        refine .inl ?_
        cases agrees with
        | @ok effect memory memory' padded =>
          rw [cycle_of_dispatched (dispatch_of_evaluated fetched evaluated),
            cycle_of_dispatched (dispatch_of_evaluated fetched' evaluated'), pads.same]
          exact settle_pads ⟨padded, rfl⟩ ⟨m.ip, i, effect⟩ (m.traceEvents i)
        | @error fault memory memory' padded =>
          rw [cycle_of_struck (dispatch_of_faulted fetched evaluated),
            cycle_of_struck (dispatch_of_faulted fetched' evaluated'), pads.same]
          exact ⟨rfl, halted_pads ⟨padded, rfl⟩⟩
  · exact .inr (strays_of_end running pads ended lost)

/-! ## Runs -/

/-- What the runs of a machine and of the same with padded memory come to. -/
inductive Alike : Except Failure RunState → Machine → Except Failure RunState → Machine → Prop
  | same {result : Except Failure RunState} {n n' : Machine} (pads : Pads n n') : Alike result n result n'
  | stray {program : String} {ip ip' : Nat} {text text' : String} {fault : Fault} {n n' : Machine}
    (beyond : BeyondEnd fault) (channel : n'.channel = n.channel) :
    Alike (.error (.faulted program ip text fault)) n (.error (.faulted program ip' text' (.unknownOpcode 0))) n'

theorem Runs.exists_alike {result : Except Failure RunState} {n : Machine} (run : Runs m result n)
    (pads : Pads m m') : ∃ result' n', Runs m' result' n' ∧ Alike result n result' n' := by
  induction run generalizing m' with
  | @rest m stopped =>
    have run := Runs.rest (m := m') (by rw [pads.state]; exact stopped)
    rw [pads.state] at run
    exact ⟨_, m', run, .same pads⟩
  | @fault m failure running failed =>
    have running' : m'.state = .running := pads.state.trans running
    rcases cycle_pads running pads with ⟨same, left⟩ | strays
    · exact ⟨_, _, .fault running' (same.trans failed), .same left⟩
    · obtain ⟨text, fault, beyond, failed'⟩ := strays.failed
      obtain ⟨ip', text', n', run, channel⟩ := strays.runs
      cases failed.symm.trans failed'
      exact ⟨_, n', run, .stray beyond channel⟩
  | @cycle m n step result running done later ih =>
    have running' : m'.state = .running := pads.state.trans running
    rcases cycle_pads running pads with ⟨same, left⟩ | strays
    · obtain ⟨result', n', run, alike⟩ := ih left
      exact ⟨result', n', .cycle running' (same.trans done) run, alike⟩
    · obtain ⟨text, fault, -, failed⟩ := strays.failed
      cases done.symm.trans failed

theorem Runs.exists_of_pads {result' : Except Failure RunState} {n' : Machine} (run : Runs m' result' n')
    (pads : Pads m m') : ∃ result n, Runs m result n := by
  have strayed {m m' : Machine} (running : m.state = .running) (strays : Strays m m') :
      ∃ result n, Runs m result n := by
    obtain ⟨text, fault, -, failed⟩ := strays.failed
    exact ⟨_, _, .fault running failed⟩
  induction run generalizing m with
  | @rest m' stopped =>
    refine ⟨_, m, .rest ?_⟩
    rw [← pads.state]
    exact stopped
  | @fault m' failure running' failed =>
    have running := pads.state.symm.trans running'
    rcases cycle_pads running pads with ⟨same, -⟩ | strays
    · exact ⟨_, _, .fault running (same.symm.trans failed)⟩
    · exact strayed running strays
  | @cycle m' n' step result' running' done later ih =>
    have running := pads.state.symm.trans running'
    rcases cycle_pads running pads with ⟨same, left⟩ | strays
    · obtain ⟨result, n, run⟩ := ih left
      exact ⟨result, n, .cycle running (same.symm.trans done) run⟩
    · exact strayed running strays

theorem launched_pads (pads : Pads m m') : Pads m.launched m'.launched := by
  obtain ⟨padded, same⟩ := pads
  rw [same]
  unfold launched
  simp only [state]
  cases m.channel.state with
  | initialising | running | awaitingInput | ended | halted => exact ⟨padded, rfl⟩

end

/-- A new machine with a program, and with a channel that may have been fed. -/
def loaded (program : List Word) (config : Config) (channel : Channel) : Machine :=
  { ofProgram program config with channel }

/-- Zero cells at the end of a program make no difference. Take a program, and the same with zero words behind it that
    do not exceed the limit of memory, each on a cooperative machine that has been fed the same words. If a run of one
    comes back, so does that of the other, and both have written the same words. They come to the same state, where
    the machines differ in the size of memory only, or both fail. The failure is the same, unless the program has
    jumped or run beyond the end of memory, where the longer one may have found a zero word that is no instruction. -/
theorem run_padded {program : List Word} {count : Nat} {config : Config} {words : List Word} {channel : Channel}
    (mode : config.mode = .cooperative) (fits : program.length + count ≤ config.maxMemory)
    (fed : (Channel.ofConfig config).feedAll words = .ok channel) :
    ((∃ result n, Returns ((loaded program config channel).run ·) result n) ↔
      ∃ result n, Returns ((loaded (program ++ List.replicate count 0) config channel).run ·) result n) ∧
    ∀ result n result' n', Returns ((loaded program config channel).run ·) result n →
      Returns ((loaded (program ++ List.replicate count 0) config channel).run ·) result' n' →
      n'.output = n.output ∧
        ((∃ state, (state = .ended ∨ state = .awaitingInput) ∧ result = .ok state ∧ result' = .ok state ∧
            (∀ address, n'.memory.peek address = n.memory.peek address) ∧ n' = { n with memory := n'.memory }) ∨
          ∃ ip text fault ip' text' fault', result = .error (.faulted config.name ip text fault) ∧
            result' = .error (.faulted config.name ip' text' fault') ∧
            (result' = result ∨ BeyondEnd fault ∧ fault' = .unknownOpcode 0)) := by
  obtain ⟨made, made'⟩ : (loaded program config channel).state = .initialising ∧
      (loaded (program ++ List.replicate count 0) config channel).state = .initialising := by
    cases (feedAll_of_live (c := Channel.ofConfig config) rfl words).symm.trans fed
    exact ⟨rfl, rfl⟩
  have pads : Pads (loaded program config channel).launched
      (loaded (program ++ List.replicate count 0) config channel).launched :=
    launched_pads ⟨Memory.padded_ofProgram fits, rfl⟩
  simp only [returns_run_iff made, returns_run_iff made']
  refine ⟨⟨?_, ?_⟩, fun result n result' n' run run' => ?_⟩
  · rintro ⟨result, n, run⟩
    obtain ⟨result', n', run', -⟩ := run.exists_alike pads
    exact ⟨result', n', run'⟩
  · rintro ⟨result', n', run'⟩
    exact run'.exists_of_pads pads
  · have mode' : (loaded program config channel).launched.config.mode = .cooperative := by
      rw [launched_config]
      exact mode
    have running : (loaded program config channel).launched.state = .running := launched_running (by rw [made]; rfl)
    obtain ⟨_, _, found, alike⟩ := run.exists_alike pads
    obtain ⟨rfl, rfl⟩ := run'.unique found
    cases alike with
    | same pads =>
      refine ⟨by rw [pads.same]; rfl, ?_⟩
      cases result with
      | ok state => exact .inl ⟨state, run.state_of_ok mode' running, rfl, rfl, pads.memory.peek, pads.same⟩
      | error failure =>
        obtain ⟨ip, text, fault, rfl⟩ := run.faulted_of_error mode'
        rw [name, launched_config]
        exact .inr ⟨ip, text, fault, ip, text, fault, rfl, rfl, .inl rfl⟩
    | @stray program' ip ip' text text' fault _ _ beyond channel' =>
      have output : n'.output = n.output := congrArg (fun c => c.output.toList) channel'
      obtain ⟨_, _, _, same⟩ := run.faulted_of_error mode'
      cases same
      rw [name, launched_config]
      exact ⟨output, .inr ⟨ip, text, fault, ip', text', _, rfl, rfl, .inr ⟨beyond, rfl⟩⟩⟩

/-- A program that writes a word and jumps to address 9, where it has no cell. With five zero words behind it there is
    one. -/
theorem run_padded_jump :
    ∃ n n', Returns ((loaded [104, 7, 1105, 1, 9] {} (.ofConfig {})).run ·)
        (.error (.faulted "program" 2 "JumpIfTrue(1, 9)" (.jumpOutOfBounds 9))) n ∧
      Returns ((loaded ([104, 7, 1105, 1, 9] ++ List.replicate 5 0) {} (.ofConfig {})).run ·)
        (.error (.faulted "program" 9 "word 0" (.unknownOpcode 0))) n' ∧
      n.output = [7] ∧ n'.output = n.output := by
  obtain ⟨n, ran, wrote⟩ : ∃ n, Returns ((loaded [104, 7, 1105, 1, 9] {} (.ofConfig {})).run ·)
      (.error (.faulted "program" 2 "JumpIfTrue(1, 9)" (.jumpOutOfBounds 9))) n ∧ n.output = [7] :=
    ⟨_, ⟨9, _, rfl⟩, rfl⟩
  obtain ⟨n', ran'⟩ : ∃ n', Returns ((loaded ([104, 7, 1105, 1, 9] ++ List.replicate 5 0) {} (.ofConfig {})).run ·)
      (.error (.faulted "program" 9 "word 0" (.unknownOpcode 0))) n' := ⟨_, 9, _, rfl⟩
  have fits : [104, 7, 1105, 1, (9 : Word)].length + 5 ≤ Config.maxMemory {} := by decide
  have fed : (Channel.ofConfig {}).feedAll [] = .ok (.ofConfig {}) := rfl
  obtain ⟨-, alike⟩ := run_padded rfl fits fed
  exact ⟨n, n', ran, ran', wrote, (alike _ n _ n' ran ran').1⟩

end Machine

end IntegerMachine
