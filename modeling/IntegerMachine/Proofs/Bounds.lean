import IntegerMachine.Pipeline
import IntegerMachine.Proofs.Execution

/-!
# Bounds

A call that drives machines takes a bound on their cycles. Once it comes back with some bound, it comes back
in the same way with every greater one: a lockstep by `Lockstep.run_mono`, a pipeline by `Pipeline.run_mono`.
-/
namespace IntegerMachine
variable {fuel fuel' : Nat}

namespace Machine
variable {m : Machine} {o : Outcome RunState}

theorem execute_mono {log : Array Event} (executed : execute fuel m log = some o) (le : fuel ≤ fuel') :
    execute fuel' m log = some o := by
  induction fuel generalizing m log fuel' with
  | zero => cases executed
  | succ fuel ih =>
    obtain ⟨more, rfl⟩ := Nat.exists_eq_add_of_le' le
    rw [← Nat.add_assoc]
    by_cases running : m.state = .running
    · rw [execute_of_running running] at executed ⊢
      cases cycled : m.cycle.result with
      | ok step =>
        rw [cycled] at executed
        exact ih executed (Nat.le_add_left fuel more)
      | error failure =>
        rw [cycled] at executed
        exact executed
    · rw [execute_of_stopped running] at executed ⊢
      exact executed

theorem resume_mono (resumed : m.resume fuel = some o) (le : fuel ≤ fuel') : m.resume fuel' = some o := by
  cases rest : m.state.isTerminal with
  | true =>
    rw [resume_of_terminal rest] at resumed ⊢
    exact resumed
  | false =>
    obtain ⟨log, same⟩ := resume_eq_execute rest
    rw [same] at resumed ⊢
    exact execute_mono resumed le

end Machine

namespace Lockstep
variable {ls : Links} {machines : List Machine} {log : Array Event}

theorem turn_mono {index : Nat} {o : GroupOutcome Bool} (turned : turn fuel ls machines index = some o)
    (le : fuel ≤ fuel') : turn fuel' ls machines index = some o := by
  unfold turn at turned ⊢
  cases found : machines[index]? with
  | none =>
    rw [found] at turned
    exact turned
  | some m =>
    simp only [found] at turned ⊢
    cases rest : m.state.isTerminal with
    | true =>
      rw [rest] at turned
      exact turned
    | false =>
      cases resumed : m.resume fuel with
      | none =>
        simp only [rest, resumed] at turned
        cases turned
      | some resumption =>
        simp only [rest, resumed] at turned
        simp only [Machine.resume_mono resumed le]
        exact turned

theorem turns_mono {indices : List Nat} {produced : Bool} {o : GroupOutcome Bool}
    (turned : turns fuel ls indices produced machines log = some o) (le : fuel ≤ fuel') :
    turns fuel' ls indices produced machines log = some o := by
  induction indices generalizing produced machines log with
  | nil => exact turned
  | cons index indices ih =>
    unfold turns at turned ⊢
    cases first : turn fuel ls machines index with
    | none =>
      rw [first] at turned
      cases turned
    | some between =>
      rw [turn_mono first le]
      rw [first] at turned
      rcases between with ⟨_ | more, between, events⟩
      · exact turned
      · exact ih turned

theorem rounds_mono {cycles cycles' done : Nat} {o : GroupOutcome Quiescence}
    (ran : rounds cycles ls fuel done machines log = some o) (le : cycles ≤ cycles') (le' : fuel ≤ fuel') :
    rounds cycles' ls fuel' done machines log = some o := by
  induction fuel generalizing fuel' done machines log with
  | zero => cases ran
  | succ fuel ih =>
    obtain ⟨more, rfl⟩ := Nat.exists_eq_add_of_le' le'
    rw [← Nat.add_assoc]
    unfold rounds round at ran ⊢
    cases first : turns cycles ls (List.range machines.length) false machines log with
    | none =>
      rw [first] at ran
      cases ran
    | some between =>
      rw [turns_mono first le]
      rw [first] at ran
      rcases between with ⟨_ | produced, between, events⟩
      · exact ran
      · cases produced with
        | true => exact ih ran (Nat.le_add_left fuel more)
        | false => exact ran

/-- A greater bound makes no difference to a lockstep that comes back. -/
theorem run_mono {o : GroupOutcome Quiescence} (ran : run fuel ls machines = some o) (le : fuel ≤ fuel') :
    run fuel' ls machines = some o :=
  rounds_mono ran le le

end Lockstep

namespace Pipeline
variable {p : Pipeline} {o : GroupOutcome (Option Word)}

/-- A greater bound makes no difference to a pipeline that comes back. -/
theorem run_mono (ran : p.run fuel = some o) (le : fuel ≤ fuel') : p.run fuel' = some o := by
  unfold run at ran ⊢
  split at ran
  · rw [if_pos ‹_›]
    exact ran
  · rw [if_neg ‹_›]
    cases locked : Lockstep.run fuel p.links p.stages with
    | none =>
      rw [locked] at ran
      cases ran
    | some between =>
      rw [Lockstep.run_mono locked le]
      rw [locked] at ran
      exact ran

end Pipeline

end IntegerMachine
