import IntegerMachine.Proofs.Bounds
import IntegerMachine.Proofs.Quiescence

/-!
# Pipelines as compositions

A pipeline without feedback is run in rounds, but all that comes of it is what a cascade does (`Cascade`): the stages
are resumed in order, each exactly once and with all that the one before it has written (`run_iff_cascade`). The
first round is the cascade (`turns_of_cascade`), and it leaves the stages at a standstill (`Cascade.rests`), so that
a second round, if there is one, changes nothing.
-/
namespace IntegerMachine.Pipeline
open Dataflow (Settled)
open Lockstep (Ready turn turns)

/-- The stages are resumed in order, and all output of each is moved to the input of the next. The first stage that
    fails ends the cascade. -/
inductive Cascade : List Machine → Except Failure Unit → List Machine → Prop
  | last {m left : Machine} {state : RunState} (resumed : Returns (m.resume ·) (.ok state) left) :
      Cascade [m] (.ok ()) [left]
  | next {m left receiver : Machine} {state : RunState} {rest lefts : List Machine} {result : Except Failure Unit}
      (resumed : Returns (m.resume ·) (.ok state) left)
      (later : Cascade (receiver.fed left.output :: rest) result lefts) :
      Cascade (m :: receiver :: rest) result (left.drained :: lefts)
  | failed {m left : Machine} {failure : Failure} {rest : List Machine}
      (resumed : Returns (m.resume ·) (.error failure) left) : Cascade (m :: rest) (.error failure) (left :: rest)

/-- How many words each machine has written. -/
def counts (machines : List Machine) : List Nat := machines.map (·.outputCount)

/-- Each of the first machines is linked to the next one, except for the last. -/
def Chained (ls : Links) (count : Nat) : Prop :=
  ∀ i < count, ls[i]?.join = if i + 1 < count then some (i + 1) else none

/-- The next of a number of machines. -/
def onward (n : Nat) (i : Fin n) : Option (Fin n) :=
  if inside : i.val + 1 < n then some ⟨i.val + 1, inside⟩ else none

theorem links_eq_onward {p : Pipeline} (forward : p.feedback = false) :
    p.links = Lockstep.links (onward p.stages.length) := by
  refine List.ext_getElem (by simp [links, Lockstep.links]) fun i inside inside' => ?_
  simp only [links, Lockstep.links, forward, List.getElem_map, List.getElem_range, List.getElem_ofFn, onward]
  split <;> rfl

theorem chained_onward (n : Nat) : Chained (Lockstep.links (onward n)) n := by
  intro i inside
  unfold Lockstep.links
  rw [Lockstep.ofFn_getElem? _ (Fin.mk i inside)]
  unfold onward
  split <;> rfl

/-! ## The turn of a stage -/

section
variable {ls : Links} {fuel : Nat} {before rest : List Machine} {m left receiver : Machine} {events : Array Event}

theorem getElem?_stage : (before ++ m :: rest)[before.length]? = some m := by
  simp

theorem getElem?_behind : (before ++ m :: receiver :: rest)[before.length + 1]? = some receiver := by
  simp

theorem set_stage : (before ++ m :: rest).set before.length left = before ++ left :: rest := by
  simp

theorem set_behind : (before ++ m :: receiver :: rest).set (before.length + 1) left = before ++ m :: left :: rest := by
  simp

theorem forward_to_next (live : receiver.state.isTerminal = false) :
    ∃ events, Lockstep.forward (before ++ left :: receiver :: rest) before.length (before.length + 1) =
      ⟨.ok (), before ++ left.drained :: receiver.fed left.output :: rest, events⟩ := by
  have accepted : Lockstep.accept receiver left.output = receiver.fed left.output := if_neg (by simp [live])
  have receives : ((before ++ left :: receiver :: rest).set before.length left.drained)[before.length + 1]? =
      some receiver := by rw [set_stage, getElem?_behind]
  obtain ⟨events, forwarded⟩ := Lockstep.forward_of_getElem? getElem?_stage receives
  rw [set_stage, set_behind, accepted] at forwarded
  exact ⟨events, forwarded⟩

theorem turn_of_failed {failure : Failure} (live : m.state.isTerminal = false)
    (resumed : m.resume fuel = some ⟨.error failure, left, events⟩) :
    turn fuel ls (before ++ m :: rest) before.length = some ⟨.error failure, before ++ left :: rest, events⟩ := by
  unfold turn
  simp only [getElem?_stage, live, Bool.false_eq_true, if_false, resumed, set_stage]

theorem turn_of_last {state : RunState} (chained : Chained ls (before.length + 1))
    (live : m.state.isTerminal = false) (resumed : m.resume fuel = some ⟨.ok state, left, events⟩) :
    turn fuel ls (before ++ [m]) before.length =
      some ⟨.ok (left.outputCount != m.outputCount), before ++ [left], events⟩ := by
  have unlinked := chained before.length (Nat.lt_succ_self _)
  rw [if_neg (Nat.lt_irrefl _)] at unlinked
  unfold turn
  simp only [getElem?_stage, live, Bool.false_eq_true, if_false, resumed, set_stage, unlinked]

theorem turn_of_next {state : RunState} (chained : Chained ls (before.length + (m :: receiver :: rest).length))
    (live : m.state.isTerminal = false) (live' : receiver.state.isTerminal = false)
    (resumed : m.resume fuel = some ⟨.ok state, left, events⟩) :
    ∃ log, turn fuel ls (before ++ m :: receiver :: rest) before.length =
      some ⟨.ok (left.outputCount != m.outputCount),
        before ++ left.drained :: receiver.fed left.output :: rest, log⟩ := by
  simp only [List.length_cons] at chained
  have linked := chained before.length (by omega)
  rw [if_pos (by omega)] at linked
  obtain ⟨more, forwarded⟩ : ∃ more, Lockstep.forward (before ++ left :: receiver :: rest) before.length _ = _ :=
    forward_to_next live'
  unfold turn
  simp only [getElem?_stage, live, Bool.false_eq_true, if_false, resumed, set_stage, linked, forwarded]
  exact ⟨_, rfl⟩

variable {produced : Bool} {log : Array Event}

theorem turns_of_unfinished (live : m.state.isTerminal = false) (unfinished : m.resume fuel = none) :
    turns fuel ls (List.range' before.length (m :: rest).length) produced (before ++ m :: rest) log = none := by
  have turned : turn fuel ls (before ++ m :: rest) before.length = none := by
    unfold turn
    simp only [getElem?_stage, live, Bool.false_eq_true, if_false, unfinished]
  simp only [List.length_cons, List.range'_succ, turns, turned]

theorem turns_of_failed {failure : Failure} (live : m.state.isTerminal = false)
    (resumed : m.resume fuel = some ⟨.error failure, left, events⟩) :
    turns fuel ls (List.range' before.length (m :: rest).length) produced (before ++ m :: rest) log =
      some ⟨.error failure, before ++ left :: rest, log ++ events⟩ := by
  have turned : turn fuel ls (before ++ m :: rest) before.length = _ := turn_of_failed live resumed
  simp only [List.length_cons, List.range'_succ, turns, turned]

/-- When a stage has had its turn, those of the stages behind it are left. -/
theorem turns_of_next {state : RunState} (chained : Chained ls (before.length + (m :: receiver :: rest).length))
    (live : m.state.isTerminal = false) (live' : receiver.state.isTerminal = false)
    (resumed : m.resume fuel = some ⟨.ok state, left, events⟩) :
    Chained ls ((before ++ [left.drained]).length + (receiver.fed left.output :: rest).length) ∧
      ∃ log', turns fuel ls (List.range' before.length (m :: receiver :: rest).length) produced
          (before ++ m :: receiver :: rest) log =
        turns fuel ls (List.range' (before ++ [left.drained]).length (receiver.fed left.output :: rest).length)
          (produced || left.outputCount != m.outputCount)
          (before ++ [left.drained] ++ receiver.fed left.output :: rest) log' := by
  obtain ⟨events', turned⟩ := turn_of_next chained live live' resumed
  have passed : before ++ left.drained :: receiver.fed left.output :: rest =
      before ++ [left.drained] ++ receiver.fed left.output :: rest := by simp
  have length : (before ++ [left.drained]).length = before.length + 1 := by simp
  refine ⟨?_, log ++ events', ?_⟩
  · rw [length, Nat.add_assoc, Nat.add_comm 1]
    exact chained
  · simp only [List.length_cons (a := m), List.range'_succ, turns, turned, passed, length]
    rfl

end

/-! ## The first round -/

theorem counts_cons_bne (m m' : Machine) (rest rest' : List Machine) :
    (counts (m :: rest) != counts (m' :: rest')) =
      (m.outputCount != m'.outputCount || counts rest != counts rest') := by
  simp only [counts, List.map_cons, bne, List.cons_beq_cons, Bool.not_and]

/-- What holds of the stages still does behind the first, if it does of the next once that has been fed. -/
theorem forall_behind {holds : Machine → Prop} {m receiver fed : Machine} {rest : List Machine}
    (all : ∀ k ∈ m :: receiver :: rest, holds k) (new : holds receiver → holds fed) :
    ∀ k ∈ fed :: rest, holds k := by
  intro k member
  rcases List.mem_cons.mp member with rfl | member
  · exact new (all receiver (by simp))
  · exact all k (by simp [member])

/-- The turns of the stages are a cascade, and they tell whether a stage has written anything. -/
theorem turns_of_cascade {stages lefts : List Machine} {result : Except Failure Unit}
    (cascade : Cascade stages result lefts) (live : ∀ m ∈ stages, m.state.isTerminal = false) :
    ∃ bound, ∀ fuel, bound ≤ fuel → ∀ ls before produced log, Chained ls (before.length + stages.length) →
      ∃ events, turns fuel ls (List.range' before.length stages.length) produced (before ++ stages) log =
        some ⟨result.map fun _ => produced || counts lefts != counts stages, before ++ lefts, events⟩ := by
  -- The stages before `stages` have had their turns: the cascade goes on from what they have handed over.
  induction cascade with
  | @last m left state resumed =>
    obtain ⟨bound, events, resumed⟩ := resumed
    refine ⟨bound, fun fuel enough ls before produced log chained => ⟨log ++ events, ?_⟩⟩
    have turned := turn_of_last chained (live m (by simp)) (Machine.resume_mono resumed enough)
    have wrote : (counts [left] != counts [m]) = (left.outputCount != m.outputCount) := by
      rw [counts_cons_bne, bne_self_eq_false, Bool.or_false]
    simp only [List.length_singleton, List.range'_one, turns, turned, wrote]
    rfl
  | @next m left receiver state rest lefts result resumed later ih =>
    obtain ⟨bound, events, resumed⟩ := resumed
    obtain ⟨bound', found⟩ := ih (forall_behind live id)
    refine ⟨bound + bound', fun fuel enough ls before produced log chained => ?_⟩
    have resumed' : m.resume fuel = _ := Machine.resume_mono resumed (by omega)
    obtain ⟨chained', log', first⟩ := turns_of_next chained (live m (by simp)) (live receiver (by simp)) resumed'
    obtain ⟨events', others⟩ :=
      found fuel (by omega) ls _ (produced || left.outputCount != m.outputCount) log' chained'
    have wrote : (counts (left.drained :: lefts) != counts (m :: receiver :: rest)) =
        (left.outputCount != m.outputCount || counts lefts != counts (receiver.fed left.output :: rest)) :=
      counts_cons_bne left.drained m lefts (receiver :: rest)
    refine ⟨events', (first.trans others).trans ?_⟩
    simp only [wrote, Bool.or_assoc, List.append_assoc, List.singleton_append]
  | @failed m left failure rest resumed =>
    obtain ⟨bound, events, resumed⟩ := resumed
    refine ⟨bound, fun fuel enough ls before produced log chained => ⟨log ++ events, ?_⟩⟩
    have resumed' : m.resume fuel = _ := Machine.resume_mono resumed enough
    rw [turns_of_failed (live m (by simp)) resumed']
    rfl

theorem exists_cascade_of_turns {ls : Links} {fuel : Nat} {m : Machine} {rest before : List Machine} {produced : Bool}
    {log : Array Event} {o : GroupOutcome Bool} (chained : Chained ls (before.length + (m :: rest).length))
    (live : ∀ k ∈ m :: rest, k.state.isTerminal = false)
    (turned : turns fuel ls (List.range' before.length (m :: rest).length) produced (before ++ m :: rest) log =
      some o) :
    ∃ result lefts, Cascade (m :: rest) result lefts := by
  induction rest generalizing m before produced log with
  | nil =>
    rcases resumed : m.resume fuel with _ | ⟨failure | state, left, events⟩
    · cases (turns_of_unfinished (live m (by simp)) resumed).symm.trans turned
    · exact ⟨_, _, .failed ⟨fuel, events, resumed⟩⟩
    · exact ⟨_, _, .last ⟨fuel, events, resumed⟩⟩
  | cons receiver rest ih =>
    rcases resumed : m.resume fuel with _ | ⟨failure | state, left, events⟩
    · cases (turns_of_unfinished (live m (by simp)) resumed).symm.trans turned
    · exact ⟨_, _, .failed ⟨fuel, events, resumed⟩⟩
    · obtain ⟨chained', log', first⟩ := turns_of_next chained (live m (by simp)) (live receiver (by simp)) resumed
      obtain ⟨result, lefts, later⟩ := ih chained' (forall_behind live id) (first.symm.trans turned)
      exact ⟨result, _, .next ⟨fuel, events, resumed⟩ later⟩

/-! ## The second round -/

theorem settled_of_resumed {m left : Machine} {state : RunState} (live : m.state.isTerminal = false)
    (suspends : m.Suspends) (resumed : Returns (m.resume ·) (.ok state) left) : left.Suspends ∧ Settled left := by
  have run := (Machine.returns_resume_iff live).mp resumed
  have suspends' := suspends.of_config m.launched_config
  -- The group around the machine makes no difference here: it may as well be alone.
  obtain ⟨-, -, -, settled⟩ := Dataflow.steps_of_runs (fun _ : Unit => none) () (fun _ => m) suspends'
    (Machine.launched_running live) run
  exact ⟨suspends'.of_config run.follows.config, settled⟩

/-- What a cascade that comes back well leaves has settled, and only the last stage has output left. -/
theorem Cascade.rests {stages lefts : List Machine} (cascade : Cascade stages (.ok ()) lefts)
    (live : ∀ m ∈ stages, m.state.isTerminal = false) (suspends : ∀ m ∈ stages, m.Suspends) :
    lefts.length = stages.length ∧ (∀ m ∈ lefts, m.Suspends ∧ Settled m) ∧
      ∀ (i : Nat) (m : Machine), lefts[i]? = some m → i + 1 < lefts.length → m.output = [] := by
  generalize well : (Except.ok () : Except Failure Unit) = result at cascade
  induction cascade with
  | @last m left state resumed =>
    have settled := settled_of_resumed (live m (by simp)) (suspends m (by simp)) resumed
    refine ⟨rfl, fun k member => ?_, fun i k found inside => ?_⟩
    · rw [List.mem_singleton.mp member]
      exact settled
    · simp at inside
  | @next m left receiver state rest lefts result resumed later ih =>
    have settled := settled_of_resumed (live m (by simp)) (suspends m (by simp)) resumed
    have suspends' : ∀ k ∈ receiver.fed left.output :: rest, k.Suspends :=
      forall_behind suspends fun before => before.of_config rfl
    obtain ⟨length, rested, clear⟩ := ih (forall_behind live id) suspends' well
    refine ⟨by simpa using length, fun k member => ?_, fun i k found inside => ?_⟩
    · rcases List.mem_cons.mp member with rfl | member
      · exact ⟨settled.1.of_config rfl, settled.2⟩
      · exact rested k member
    · cases i with
      | zero =>
        cases found
        rfl
      | succ i => exact clear i k found (by simpa using inside)
  | failed => cases well

theorem exists_ofFn {α : Type} {l : List α} {n : Nat} (length : l.length = n) : ∃ f : Fin n → α, l = List.ofFn f := by
  subst length
  exact ⟨l.get, (List.ofFn_get l).symm⟩

/-- A round of what a cascade has left changes nothing. -/
theorem Cascade.rounds {stages lefts : List Machine} (cascade : Cascade stages (.ok ()) lefts)
    (live : ∀ m ∈ stages, m.state.isTerminal = false) (suspends : ∀ m ∈ stages, m.Suspends) :
    ∃ bound, ∀ cycles, bound ≤ cycles → ∀ fuel done log, ∃ allEnded events,
      Lockstep.rounds cycles (Lockstep.links (onward stages.length)) (fuel + 1) done lefts log =
        some ⟨.ok ⟨done + 1, allEnded⟩, lefts, events⟩ := by
  obtain ⟨length, rested, clear⟩ := cascade.rests live suspends
  obtain ⟨group, rfl⟩ := exists_ofFn length
  have ready : Ready (onward stages.length) group := by
    refine ⟨fun i => (rested _ (List.mem_ofFn.mpr ⟨i, rfl⟩)).1, fun i linked => ?_⟩
    refine clear i _ (Lockstep.ofFn_getElem? group i) ?_
    unfold onward at linked
    split at linked
    · rw [List.length_ofFn]
      assumption
    · cases linked
  have settled : ∀ k, Settled (group k) := fun k => (rested _ (List.mem_ofFn.mpr ⟨k, rfl⟩)).2
  obtain ⟨bound, found⟩ := (Lockstep.turns_of_settled ready settled _).rounds_of_silent
  refine ⟨bound, fun cycles enough fuel done log => ?_⟩
  obtain ⟨events, ran⟩ := found cycles enough fuel done log
  exact ⟨_, events, ran⟩

/-! ## The whole run -/

theorem round_eq_turns {ls : Links} {fuel : Nat} {stages : List Machine} {log : Array Event} :
    Lockstep.round fuel ls stages log = turns fuel ls (List.range' 0 stages.length) false ([] ++ stages) log := by
  unfold Lockstep.round
  rw [List.range_eq_range']
  rfl

theorem round_of_cascade {stages lefts : List Machine} {result : Except Failure Unit}
    (cascade : Cascade stages result lefts) (live : ∀ m ∈ stages, m.state.isTerminal = false) :
    ∃ bound, ∀ fuel, bound ≤ fuel → ∀ log, ∃ events,
      Lockstep.round fuel (Lockstep.links (onward stages.length)) stages log =
        some ⟨result.map fun _ => counts lefts != counts stages, lefts, events⟩ := by
  obtain ⟨bound, found⟩ := turns_of_cascade cascade live
  refine ⟨bound, fun fuel enough log => ?_⟩
  have chained : Chained (Lockstep.links (onward stages.length)) (([] : List Machine).length + stages.length) := by
    rw [List.length_nil, Nat.zero_add]
    exact chained_onward _
  obtain ⟨events, turned⟩ := found fuel enough _ [] false log chained
  exact ⟨events, round_eq_turns.trans turned⟩

/-- A cascade that comes back well is one round of a lockstep if no stage writes anything, and two otherwise. -/
theorem lockstep_of_cascade {stages lefts : List Machine} (cascade : Cascade stages (.ok ()) lefts)
    (live : ∀ m ∈ stages, m.state.isTerminal = false) (suspends : ∀ m ∈ stages, m.Suspends) :
    ∃ bound, ∀ fuel, bound ≤ fuel → ∃ allEnded events,
      Lockstep.run fuel (Lockstep.links (onward stages.length)) stages =
        some ⟨.ok ⟨if counts lefts = counts stages then 1 else 2, allEnded⟩, lefts, events⟩ := by
  obtain ⟨bound, found⟩ := round_of_cascade cascade live
  obtain ⟨bound', found'⟩ := cascade.rounds live suspends
  refine ⟨bound + bound' + 2, fun fuel enough => ?_⟩
  obtain ⟨fuel, rfl⟩ := Nat.exists_eq_add_of_le' (Nat.le_trans (Nat.le_add_left 2 _) enough)
  obtain ⟨events, first⟩ := found (fuel + 2) (by omega) #[]
  unfold Lockstep.run Lockstep.rounds
  simp only [first, Except.map]
  by_cases same : counts lefts = counts stages
  · rw [if_pos same, same, bne_self_eq_false]
    exact ⟨_, _, rfl⟩
  · rw [if_neg same, bne_iff_ne.mpr same]
    exact found' (fuel + 2) (by omega) fuel 1 events

theorem lockstep_of_failed {stages lefts : List Machine} {failure : Failure}
    (cascade : Cascade stages (.error failure) lefts) (live : ∀ m ∈ stages, m.state.isTerminal = false) :
    ∃ bound, ∀ fuel, bound ≤ fuel → ∃ events,
      Lockstep.run fuel (Lockstep.links (onward stages.length)) stages = some ⟨.error failure, lefts, events⟩ := by
  obtain ⟨bound, found⟩ := round_of_cascade cascade live
  refine ⟨bound + 1, fun fuel enough => ?_⟩
  obtain ⟨fuel, rfl⟩ := Nat.exists_eq_add_of_le' (Nat.le_trans (Nat.le_add_left 1 _) enough)
  obtain ⟨events, first⟩ := found (fuel + 1) (by omega) #[]
  unfold Lockstep.run Lockstep.rounds
  simp only [first, Except.map]
  exact ⟨events, rfl⟩

theorem exists_cascade_of_lockstep {stages : List Machine} (some : stages ≠ [])
    (live : ∀ m ∈ stages, m.state.isTerminal = false) {fuel : Nat} {o : GroupOutcome Quiescence}
    (ran : Lockstep.run fuel (Lockstep.links (onward stages.length)) stages = .some o) :
    ∃ result lefts, Cascade stages result lefts := by
  cases fuel with
  | zero => cases ran
  | succ fuel =>
    unfold Lockstep.run Lockstep.rounds at ran
    cases first : Lockstep.round (fuel + 1) (Lockstep.links (onward stages.length)) stages #[] with
    | none =>
      rw [first] at ran
      cases ran
    | some between =>
      obtain ⟨m, rest, rfl⟩ := List.exists_cons_of_ne_nil some
      refine exists_cascade_of_turns ?_ live (round_eq_turns.symm.trans first)
      rw [List.length_nil, Nat.zero_add]
      exact chained_onward _

/-- The last word that the final stage has written. -/
def finalWord (stages : List Machine) : Option Word := stages.getLast?.bind (·.lastOutput)

theorem exists_cascade_of_run {p : Pipeline} (forward : p.feedback = false) (some : p.stages ≠ [])
    (live : ∀ m ∈ p.stages, m.state.isTerminal = false) {fuel : Nat} {o : GroupOutcome (Option Word)}
    (ran : p.run fuel = .some o) : ∃ result lefts, Cascade p.stages result lefts := by
  have stages : ¬ p.stages.isEmpty = true := by simpa using some
  unfold run at ran
  rw [if_neg stages, links_eq_onward forward] at ran
  cases locked : Lockstep.run fuel (Lockstep.links (onward p.stages.length)) p.stages with
  | none =>
    rw [locked] at ran
    cases ran
  | some between => exact exists_cascade_of_lockstep some live locked

theorem run_of_cascade {p : Pipeline} (forward : p.feedback = false) (some : p.stages ≠ [])
    (live : ∀ m ∈ p.stages, m.state.isTerminal = false) (suspends : ∀ m ∈ p.stages, m.Suspends)
    {result : Except Failure Unit} {lefts : List Machine} (cascade : Cascade p.stages result lefts) :
    ∃ bound, ∀ fuel, bound ≤ fuel → ∃ events,
      p.run fuel = .some ⟨result.map fun _ => finalWord lefts, lefts, events⟩ := by
  have stages : ¬ p.stages.isEmpty = true := by simpa using some
  cases result with
  | error failure =>
    obtain ⟨bound, found⟩ := lockstep_of_failed cascade live
    refine ⟨bound, fun fuel enough => ?_⟩
    obtain ⟨events, ran⟩ := found fuel enough
    unfold run
    simp only [if_neg stages, links_eq_onward forward, ran]
    exact ⟨events, rfl⟩
  | ok =>
    obtain ⟨bound, found⟩ := lockstep_of_cascade cascade live suspends
    refine ⟨bound, fun fuel enough => ?_⟩
    obtain ⟨allEnded, events, ran⟩ := found fuel enough
    unfold run finalWord
    simp only [if_neg stages, links_eq_onward forward, ran]
    cases lefts.getLast? with
    | none => exact ⟨events, rfl⟩
    | some last => exact ⟨_, rfl⟩

/-- A pipeline without feedback is the composition of its stages. Take stages that suspend when they lack input,
    none of which is at rest. Then the pipeline comes back exactly if the cascade of its stages does, and leaves
    every stage as the cascade does. If all stages come back well it answers the last word of the final one, after
    a single round if nothing has been written and after two otherwise; if not, it fails as the first stage that
    does. -/
theorem run_iff_cascade {p : Pipeline} (forward : p.feedback = false) (some : p.stages ≠ [])
    (suspends : ∀ m ∈ p.stages, m.Suspends) (live : ∀ m ∈ p.stages, m.state.isTerminal = false) :
    (∀ answer lefts, (∃ fuel events, p.run fuel = .some ⟨answer, lefts, events⟩) ↔
      ∃ result, Cascade p.stages result lefts ∧ answer = result.map fun _ => finalWord lefts) ∧
    ∀ lefts, Cascade p.stages (.ok ()) lefts →
      ∃ bound, ∀ fuel, bound ≤ fuel → ∃ allEnded events,
        Lockstep.run fuel p.links p.stages =
          .some ⟨.ok ⟨if counts lefts = counts p.stages then 1 else 2, allEnded⟩, lefts, events⟩ := by
  refine ⟨fun answer lefts => ⟨?_, ?_⟩, fun lefts cascade => ?_⟩
  · rintro ⟨fuel, events, ran⟩
    obtain ⟨result, lefts', cascade⟩ := exists_cascade_of_run forward some live ran
    obtain ⟨bound, found⟩ := run_of_cascade forward some live suspends cascade
    obtain ⟨events', same⟩ := found (max fuel bound) (Nat.le_max_right ..)
    cases (run_mono ran (Nat.le_max_left ..)).symm.trans same
    exact ⟨result, cascade, rfl⟩
  · rintro ⟨result, cascade, rfl⟩
    obtain ⟨bound, found⟩ := run_of_cascade forward some live suspends cascade
    obtain ⟨events, ran⟩ := found bound (Nat.le_refl bound)
    exact ⟨bound, events, ran⟩
  · rw [links_eq_onward forward]
    exact lockstep_of_cascade cascade live suspends

/-- Two stages, of which the first adds one to the word it has been fed, and the second multiplies by ten. -/
def plusTimes : Pipeline where
  stages :=
    [(Machine.ofProgram [3, 9, 1001, 9, 1, 9, 4, 9, 99, 0] {}).fed [4],
      Machine.ofProgram [3, 9, 1002, 9, 10, 9, 4, 9, 99, 0] {}]
  feedback := false

theorem run_iff_cascade_plusTimes :
    ∃ lefts, Cascade plusTimes.stages (.ok ()) lefts ∧ finalWord lefts = some 50 ∧
      ∃ bound, ∀ fuel, bound ≤ fuel → ∃ allEnded events,
        Lockstep.run fuel plusTimes.links plusTimes.stages = some ⟨.ok ⟨2, allEnded⟩, lefts, events⟩ := by
  have suspends : ∀ m ∈ plusTimes.stages, m.Suspends := by
    simp only [plusTimes, List.forall_mem_cons]
    exact ⟨⟨rfl, rfl⟩, ⟨rfl, rfl⟩, nofun⟩
  have live : ∀ m ∈ plusTimes.stages, m.state.isTerminal = false := by
    simp only [plusTimes, List.forall_mem_cons]
    exact ⟨rfl, rfl, nofun⟩
  obtain ⟨comes, locked⟩ := run_iff_cascade rfl (List.cons_ne_nil _ _) suspends live
  have well : (plusTimes.run 9).map (fun o => (o.result.toOption, counts o.machines)) =
      some (some (some 50), [1, 1]) := by
    decide +kernel
  obtain ⟨⟨answer, lefts, events⟩, ran, ended⟩ := Option.map_eq_some_iff.mp well
  obtain ⟨answered, wrote⟩ := Prod.mk.inj ended
  obtain ⟨result, cascade, rfl⟩ := (comes answer lefts).mp ⟨9, events, ran⟩
  cases result with
  | error => cases answered
  | ok =>
    have written : counts lefts ≠ counts plusTimes.stages := by
      rw [wrote]
      decide
    have rounds := locked lefts cascade
    rw [if_neg written] at rounds
    exact ⟨lefts, cascade, Option.some.inj answered, rounds⟩

end IntegerMachine.Pipeline
