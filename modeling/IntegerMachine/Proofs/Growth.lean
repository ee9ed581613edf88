import IntegerMachine.Proofs.Lifecycle

/-!
# Memory only grows

Whatever is done to memory, it never shrinks, and never grows past its limit (`Memory.Grows`). That holds of each
access, hence of each instruction (`Instruction.growing_evaluate`) and of each cycle (`Machine.cycle_grows`).
-/
namespace IntegerMachine

namespace Memory

/-- Memory that has become of `mem`: it has not shrunk, and has grown up to the limit at most. -/
structure Grows (mem mem' : Memory) : Prop where
  limit : mem'.limit = mem.limit
  size_le : mem.size ≤ mem'.size
  bounded : mem'.size ≤ max mem.size mem.limit

theorem Grows.refl (mem : Memory) : Grows mem mem := ⟨rfl, Nat.le_refl _, Nat.le_max_left _ _⟩

theorem Grows.trans {mem mem' mem'' : Memory} (first : Grows mem mem') (second : Grows mem' mem'') :
    Grows mem mem'' := by
  have bounded := first.bounded
  have bounded' := second.bounded
  rw [first.limit] at bounded'
  refine ⟨second.limit.trans first.limit, first.size_le.trans second.size_le, ?_⟩
  omega

theorem admits_of_unrefused {mem : Memory} {address : Nat} (unrefused : mem.refusal? address = none) :
    mem.admits address := by
  unfold refusal? at unrefused
  by_cases admitted : mem.admits address
  · exact admitted
  · rw [if_neg admitted] at unrefused
    cases unrefused

theorem size_reach (mem : Memory) (address : Nat) : (mem.reach address).size = max mem.size (address + 1) := by
  unfold reach
  by_cases inside : address < mem.size
  · rw [if_pos inside]
    omega
  · rw [if_neg inside]
    simp only [size, Array.size_append, Array.size_replicate] at inside ⊢
    omega

theorem limit_reach (mem : Memory) (address : Nat) : (mem.reach address).limit = mem.limit := by
  unfold reach
  split <;> rfl

theorem reach_grows {mem : Memory} {address : Nat} (unrefused : mem.refusal? address = none) :
    Grows mem (mem.reach address) := by
  have admitted := admits_of_unrefused unrefused
  simp only [admits, Bool.or_eq_true, decide_eq_true_eq] at admitted
  refine ⟨mem.limit_reach address, ?_, ?_⟩
  · rw [size_reach]
    omega
  · rw [size_reach]
    omega

theorem size_write (mem : Memory) (address : Nat) (value : Word) : (mem.write address value).size = mem.size :=
  Array.size_setIfInBounds

theorem write_grows (mem : Memory) (address : Nat) (value : Word) : Grows mem (mem.write address value) := by
  have size := mem.size_write address value
  refine ⟨rfl, ?_, ?_⟩
  · omega
  · omega

/-! ## Computations on memory -/

/-- The memory that a computation leaves. -/
def left {α : Type} (x : EStateM Fault Memory α) (mem : Memory) : Memory :=
  match x mem with
  | .ok _ mem | .error _ mem => mem

/-- A computation under which memory grows, whether it faults or not. -/
def Growing {α : Type} (x : EStateM Fault Memory α) : Prop := ∀ mem, Grows mem (left x mem)

section
variable {α β : Type}

theorem growing_pure (a : α) : Growing (pure a : EStateM Fault Memory α) := Grows.refl

theorem growing_throw (fault : Fault) : Growing (throw fault : EStateM Fault Memory α) := Grows.refl

theorem Growing.bind {x : EStateM Fault Memory α} {f : α → EStateM Fault Memory β} (first : Growing x)
    (later : ∀ a, Growing (f a)) : Growing (x >>= f) := by
  intro mem
  have grows := first mem
  change Grows mem (left (EStateM.bind x f) mem)
  unfold left EStateM.bind
  unfold left at grows
  cases done : x mem with
  | ok a between =>
    simp only [done] at grows ⊢
    exact grows.trans (later a between)
  | error fault between =>
    simp only [done] at grows ⊢
    exact grows

end

theorem growing_readCell (address : Nat) : Growing (readCell address) := by
  intro mem
  unfold left readCell
  cases refused : mem.refusal? address with
  | some fault => exact .refl mem
  | none => exact reach_grows refused

theorem growing_poke (address : Nat) (value : Word) : Growing (poke address value) := by
  intro mem
  unfold left poke
  cases refused : mem.refusal? address with
  | some fault => exact .refl mem
  | none => exact (reach_grows refused).trans (write_grows _ address value)

theorem growing_load (a : Argument) (relativeBase : Word) : Growing (load a relativeBase) := by
  intro mem
  unfold left load
  cases a.effectiveAddress relativeBase with
  | none => exact .refl mem
  | some word =>
    simp only
    cases address word with
    | ok address => exact growing_readCell address mem
    | error fault => exact .refl mem

theorem growing_store (a : Argument) (relativeBase value : Word) : Growing (store a relativeBase value) := by
  intro mem
  unfold left store
  cases a.effectiveAddress relativeBase with
  | none => exact .refl mem
  | some word =>
    simp only
    cases address word with
    | ok address => exact growing_poke address value mem
    | error fault => exact .refl mem

end Memory

open Memory (Growing Grows growing_pure growing_throw growing_load growing_store)

namespace Effect

theorem growing_combine (f : Word → Word → Word) (lhs rhs dest : Argument) (relativeBase : Word) :
    Growing (combine f lhs rhs dest relativeBase) :=
  .bind (growing_load lhs relativeBase) fun _ => .bind (growing_load rhs relativeBase) fun _ =>
    .bind (growing_store dest relativeBase _) fun _ => growing_pure _

theorem growing_jumpTo (target : Argument) (relativeBase : Word) : Growing (jumpTo target relativeBase) := by
  have got : Growing (get : EStateM Fault Memory Memory) := Grows.refl
  refine .bind (growing_load target relativeBase) fun word => .bind got fun mem => ?_
  split
  · split
    · exact growing_pure _
    · exact growing_throw _
  · exact growing_throw _

theorem growing_jumpWhen (test : Word → Bool) (condition target : Argument) (relativeBase : Word) :
    Growing (jumpWhen test condition target relativeBase) := by
  refine .bind (growing_load condition relativeBase) fun x => ?_
  split
  · exact growing_jumpTo target relativeBase
  · exact growing_pure _

end Effect

theorem Instruction.growing_evaluate (i : Instruction) (relativeBase : Word) : Growing (i.evaluate relativeBase) := by
  cases i with
  | add | multiply | lessThan | equals => exact Effect.growing_combine _ _ _ _ relativeBase
  | jumpIfTrue | jumpIfFalse => exact Effect.growing_jumpWhen _ _ _ relativeBase
  | input | halt => exact growing_pure _
  | output source => exact .bind (growing_load source relativeBase) fun _ => growing_pure _
  | adjustRelativeBase offset => exact .bind (growing_load offset relativeBase) fun _ => growing_pure _

/-! ## Machines -/

namespace Machine

theorem dispatch_grows (m : Machine) : Grows m.memory m.dispatch.machine.memory := by
  cases fetched : m.fetch with
  | error fault =>
    rw [dispatch_of_unfetched fetched]
    exact .refl _
  | ok i =>
    have grows := i.growing_evaluate m.relativeBase m.memory
    unfold Memory.left at grows
    cases evaluated : i.evaluate m.relativeBase m.memory with
    | ok effect memory =>
      rw [dispatch_of_evaluated fetched evaluated]
      rw [evaluated] at grows
      exact grows
    | error fault memory =>
      rw [dispatch_of_faulted fetched evaluated]
      rw [evaluated] at grows
      exact grows

theorem receive_grows (m : Machine) (start : Nat) (i : Instruction) (dest : Argument) (word : Word) :
    Grows m.memory (m.receive start i dest word).2.memory := by
  have grows := growing_store dest m.relativeBase word m.memory
  unfold Memory.left at grows
  cases m with | mk config memory ip relativeBase channel steps outputCount lastOutput =>
  unfold receive
  simp only at grows ⊢
  cases stored : Memory.store dest relativeBase word memory with
  | ok previous memory =>
    rw [stored] at grows
    exact grows
  | error fault memory =>
    rw [stored] at grows
    exact grows

theorem settle_grows (m : Machine) (p : Pending) (events : Array Event) :
    Grows m.memory (m.settle p events).machine.memory := by
  unfold settle
  cases p.effect with
  | advance | jump | rebase | output => exact .refl _
  | halt =>
    rcases m.finish_cases p.start events with ⟨-, more, finished⟩ | ⟨-, finished⟩
    · simp only [finished]
      exact .refl _
    · simp only [finished]
      exact .refl _
  | input dest =>
    obtain ⟨input, left⟩ := m.readInput_machine
    rcases read : m.readInput with ⟨failure | _ | word, m'⟩
    · rw [read] at left
      subst left
      exact .refl _
    · rw [read] at left
      subst left
      rcases (m.withInput input).suspend_cases p.start events with ⟨-, more, suspended⟩ | ⟨-, suspended⟩
      · simp only [suspended]
        exact .refl _
      · simp only [suspended]
        exact .refl _
    · rw [read] at left
      subst left
      have grows := (m.withInput input).receive_grows p.start p.instruction dest word
      rcases received : (m.withInput input).receive p.start p.instruction dest word with ⟨failure | _, m''⟩
      · rw [received] at grows
        simp only [received]
        exact grows
      · rw [received] at grows
        simp only [received]
        exact grows

theorem cycle_grows (m : Machine) : Grows m.memory m.cycle.machine.memory := by
  have grows := m.dispatch_grows
  rcases dispatched : m.dispatch with ⟨failure | p, m', events⟩
  · rw [cycle_of_struck dispatched]
    rw [dispatched] at grows
    exact grows
  · rw [cycle_of_dispatched dispatched]
    rw [dispatched] at grows
    exact grows.trans (m'.settle_grows p events)

end Machine

end IntegerMachine
