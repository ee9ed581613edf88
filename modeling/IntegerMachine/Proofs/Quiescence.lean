import IntegerMachine.Proofs.Arrangement
import Mathlib.Algebra.BigOperators.Fin

/-!
# The standstill of a lockstep

When a lockstep comes back well its machines have nothing left to do: each is at rest or awaits input that it has
not been fed, and whatever has been written for another machine has been delivered (`run_quiescent`). Such a group
stays as it is (`turns_of_settled`), and each round before the last has written a word (`Turns.written`).
-/
namespace IntegerMachine.Lockstep
open Dataflow
variable {n : Nat} {target : Fin n → Option (Fin n)} {group left : Fin n → Machine} {i : Fin n} {m : Machine}

/-! ## Words written -/

theorem handOn_outputCount (target : Fin n → Option (Fin n)) (i : Fin n) (m : Machine) (group : Fin n → Machine)
    (k : Fin n) :
    (handOn target i m group k).outputCount = Function.update (fun k => (group k).outputCount) i m.outputCount k := by
  have accepted : ∀ (m : Machine) words, (accept m words).outputCount = m.outputCount := by
    intro m words
    unfold accept
    split <;> rfl
  unfold handOn
  rw [accepted]
  by_cases same : k = i
  · subst same
    rw [if_pos rfl, Function.update_self]
    unfold shed
    split <;> rfl
  · rw [if_neg same, Function.update_of_ne same]

theorem sum_outputCount_handOn (target : Fin n → Option (Fin n)) (i : Fin n) (m : Machine)
    (group : Fin n → Machine) :
    ∑ k, (handOn target i m group k).outputCount + (group i).outputCount =
      ∑ k, (group k).outputCount + m.outputCount := by
  simp only [handOn_outputCount]
  rw [Finset.sum_update_of_mem (Finset.mem_univ i),
    Finset.sum_eq_add_sum_sdiff_singleton_of_mem (Finset.mem_univ i) fun k => (group k).outputCount]
  omega

theorem Turns.written {indices : List (Fin n)} {produced : Bool} (turns : Turns target indices group produced left) :
    ∑ k, (group k).outputCount + produced.toNat ≤ ∑ k, (left k).outputCount := by
  induction turns with
  | done group => exact Nat.le_refl _
  | out _ _ ih => exact ih
  | @turn i indices group left produced state m live run later ih =>
    obtain ⟨words, -, count⟩ := run.follows.written
    rw [Machine.launched_outputCount] at count
    have handed := sum_outputCount_handOn target i m group
    cases words with
    | nil =>
      have same : m.outputCount = (group i).outputCount := count
      rw [same, bne_self_eq_false, Bool.false_or]
      omega
    | cons word words =>
      have more : m.outputCount = (group i).outputCount + (words.length + 1) := count
      have bit := Bool.toNat_le (m.outputCount != (group i).outputCount || produced)
      omega

/-! ## Standing still -/

theorem shed_of_clear (clear : (target i).isSome → m.output = []) : shed target i m = m := by
  unfold shed
  split
  · next linked =>
    have held := m.holding_output_drained
    rw [clear linked, Machine.holding_nil] at held
    exact held
  · rfl

/-- A machine that lacks input and awaits it is resumed into what it was. -/
theorem runs_of_starving (suspends : m.Suspends) (awaiting : m.state = .awaitingInput) (starving : m.Starving) :
    Machine.Runs m.launched (.ok .awaitingInput) m := by
  have running : m.launched.state = .running := Machine.launched_running (by rw [awaiting]; rfl)
  have lacking : m.launched.Starving := by
    rw [Machine.launched_of_awaiting awaiting]
    exact starving
  have back : m.launched.withState .awaitingInput = m := by
    rw [Machine.launched_of_awaiting awaiting]
    change m.withState .awaitingInput = m
    rw [← awaiting, Machine.withState_state]
  obtain ⟨events, starved⟩ :=
    Machine.cycle_of_starving (suspends.of_config m.launched_config) running lacking
  refine .cycle running (by rw [starved]) ?_
  rw [starved, back, ← awaiting]
  exact .rest (by rw [awaiting]; exact nofun)

theorem turns_of_settled (ready : Ready target group) (settled : ∀ k, Settled (group k)) (indices : List (Fin n)) :
    Turns target indices group false group := by
  induction indices with
  | nil => exact .done group
  | cons i indices ih =>
    rcases settled i with atRest | ⟨awaiting, starving⟩
    · exact .out atRest ih
    · have run := runs_of_starving (ready.suspends i) awaiting starving
      have same : handOn target i (group i) group = group := by
        funext k
        rw [handOn_of_silent ready run rfl, shed_of_clear (ready.clear i)]
        split
        · next own => rw [own]
        · rfl
      have later : Turns target indices (handOn target i (group i) group) false group := by
        rw [same]
        exact ih
      have turned := Turns.turn (by rw [awaiting]; rfl) run later
      rw [bne_self_eq_false, Bool.false_or] at turned
      exact turned

/-- A silent round is the last. -/
theorem Turns.rounds_of_silent (silent : Turns target (List.finRange n) group false left) :
    ∃ bound, ∀ cycles, bound ≤ cycles → ∀ fuel done log, ∃ events,
      rounds cycles (links target) (fuel + 1) done (List.ofFn group) log =
        some ⟨.ok ⟨done + 1, (List.ofFn left).all fun m => m.state.isTerminal⟩, List.ofFn left, events⟩ := by
  obtain ⟨bound, found⟩ := silent.turns_eventually
  refine ⟨bound, fun cycles enough fuel done log => ?_⟩
  obtain ⟨events, turned⟩ := found cycles enough false log
  simp only [rounds, round_ofFn, turned]
  exact ⟨_, rfl⟩

/-! ## Coming to a standstill -/

/-- What a lockstep that comes back well has come to after `done` rounds. -/
theorem quiescent_of_rounds {cycles fuel done : Nat} {q : Quiescence} {machines : List Machine}
    {log events : Array Event} (ready : Ready target group)
    (ran : rounds cycles (links target) fuel done (List.ofFn group) log = some ⟨.ok q, machines, events⟩) :
    ∃ left, machines = List.ofFn left ∧ Ready target left ∧ (∀ k, Settled (left k)) ∧
      q.allEnded = machines.all (fun m => m.state.isTerminal) ∧ done < q.rounds ∧
      q.rounds - (done + 1) + ∑ k, (group k).outputCount ≤ ∑ k, (left k).outputCount := by
  induction fuel generalizing done group log with
  | zero => cases ran
  | succ fuel ih =>
    simp only [rounds, round_ofFn] at ran
    rcases turned : turns cycles (links target) ((List.finRange n).map Fin.val) false (List.ofFn group) log with
      _ | ⟨_ | after, between, events'⟩
    · rw [turned] at ran
      cases ran
    · rw [turned] at ran
      cases ran
    · rw [turned] at ran
      obtain ⟨produced, next, round, wrote, rfl⟩ := turns_of_ok turned
      rw [Bool.false_or] at wrote
      subst wrote
      obtain ⟨-, -, -, -, ready', -, quiet⟩ := round.steps ready fun k => tracks_launched (group k)
      have written := round.written
      cases after with
      | true =>
        -- This round has written a word, which pays for itself in the count of rounds.
        obtain ⟨left, rfl, ready'', settled, ended, later, count⟩ := ih ready' ran
        have one : true.toNat = 1 := rfl
        exact ⟨left, rfl, ready'', settled, ended, by omega, by omega⟩
      | false =>
        cases ran
        exact ⟨next, rfl, ready', fun k => quiet rfl k (.inl (List.mem_finRange k)), rfl, Nat.lt_succ_self done,
          by simpa using written⟩

theorem isSome_of_links {target : Fin n → Option (Fin n)} (i : Fin n) :
    ((links target)[i.val]?.join).isSome = (target i).isSome := by
  rw [join_links, Option.isSome_map]

/-- The standstill of a lockstep is genuine and stable. Take machines that suspend when they lack input, with any
    links between them, and let no linked one have output at first. If their lockstep comes back well, then every
    machine is at rest or awaits input with none queued, and no linked one has output left. It tells truly
    whether all are at rest, every round but the last has written a word at least, and another lockstep comes
    back after a single round and leaves the machines as they are. -/
theorem run_quiescent {machines left : List Machine} {pairs : List (Nat × Nat)} {ls : Links}
    (linked : linkAll (unlinked machines.length) pairs = .ok ls) (suspends : ∀ m ∈ machines, m.Suspends)
    (clear : ∀ (i : Nat) (m : Machine), machines[i]? = some m → (ls[i]?.join).isSome → m.output = [])
    {fuel : Nat} {q : Quiescence} {events : Array Event}
    (ran : run fuel ls machines = some ⟨.ok q, left, events⟩) :
    left.length = machines.length ∧
    (∀ m ∈ left, m.state.isTerminal ∨ m.state = .awaitingInput ∧ m.channel.input = []) ∧
    (∀ (i : Nat) (m : Machine), left[i]? = some m → (ls[i]?.join).isSome → m.output = []) ∧
    (q.allEnded = true ↔ ∀ m ∈ left, m.state.isTerminal) ∧
    1 ≤ q.rounds ∧
    q.rounds - 1 + (machines.map (·.outputCount)).sum ≤ (left.map (·.outputCount)).sum ∧
    ∃ bound, ∀ fuel', bound ≤ fuel' → ∃ events',
      run fuel' ls left = some ⟨.ok ⟨1, q.allEnded⟩, left, events'⟩ := by
  obtain ⟨target, rfl⟩ := exists_target_of_linkAll linked
  have whole : List.ofFn machines.get = machines := List.ofFn_get machines
  have ready : Ready target machines.get := by
    refine ⟨fun i => suspends _ (List.get_mem machines i), fun i some => clear i _ ?_ ?_⟩
    · exact List.getElem?_eq_getElem i.isLt
    · rw [isSome_of_links]
      exact some
  obtain ⟨final, rfl, ready', settled, ended, first, written⟩ :=
    quiescent_of_rounds ready ((congrArg (run fuel (links target)) whole).trans ran)
  have sums : ∀ group : Fin machines.length → Machine,
      ((List.ofFn group).map (·.outputCount)).sum = ∑ k, (group k).outputCount := by
    intro group
    rw [List.map_ofFn, List.sum_ofFn]
    rfl
  refine ⟨List.length_ofFn, fun m member => ?_, fun i m found some => ?_, ?_, first, ?_, ?_⟩
  · obtain ⟨k, rfl⟩ := List.mem_ofFn.mp member
    exact (settled k).imp id fun ⟨awaiting, starving⟩ => ⟨awaiting, starving.2⟩
  · obtain ⟨inside, rfl⟩ := List.getElem?_eq_some_iff.mp found
    rw [List.getElem_ofFn]
    rw [List.length_ofFn] at inside
    refine ready'.clear ⟨i, inside⟩ ?_
    rw [← isSome_of_links]
    exact some
  · rw [ended, List.all_eq_true]
  · have before := sums machines.get
    rw [whole] at before
    rw [before, sums]
    simpa using written
  · obtain ⟨bound, found⟩ := (turns_of_settled ready' settled _).rounds_of_silent
    refine ⟨bound + 1, fun fuel' enough => ?_⟩
    obtain ⟨fuel', rfl⟩ := Nat.exists_eq_add_of_le' (Nat.le_trans (Nat.le_add_left 1 bound) enough)
    obtain ⟨events', again⟩ := found (fuel' + 1) (by omega) fuel' 0 #[]
    rw [ended]
    exact ⟨events', again⟩

/-- Two machines that write one word each, and one between them that passes words on. -/
def fanIn : List Machine :=
  [.ofProgram [104, 5, 99] {}, .ofProgram [3, 7, 4, 7, 1105, 1, 0] {}, .ofProgram [104, 6, 99] {}]

/-- The middle machine has its turn before the last one feeds it, so that there are three rounds. -/
theorem run_quiescent_fanIn :
    ∃ ls q left events, linkAll (unlinked fanIn.length) [(0, 1), (2, 1)] = .ok ls ∧
      run 9 ls fanIn = some ⟨.ok q, left, events⟩ ∧ q = ⟨3, false⟩ ∧
      (∀ m ∈ left, m.state.isTerminal ∨ m.state = .awaitingInput ∧ m.channel.input = []) ∧
      ∃ bound, ∀ fuel', bound ≤ fuel' → ∃ events',
        run fuel' ls left = some ⟨.ok ⟨1, q.allEnded⟩, left, events'⟩ := by
  have linked : linkAll (unlinked fanIn.length) [(0, 1), (2, 1)] = .ok [some 1, none, some 1] := rfl
  have well : (run 9 [some 1, none, some 1] fanIn).map (fun o => o.result.toOption) = some (some ⟨3, false⟩) := by
    decide +kernel
  obtain ⟨⟨result, left, events⟩, ran, ended⟩ := Option.map_eq_some_iff.mp well
  obtain ⟨q, rfl⟩ : ∃ q, result = .ok q := by
    cases result with
    | error => cases ended
    | ok q => exact ⟨q, rfl⟩
  have suspends : ∀ m ∈ fanIn, m.Suspends := by
    simp only [fanIn, List.forall_mem_cons]
    exact ⟨⟨rfl, rfl⟩, ⟨rfl, rfl⟩, ⟨rfl, rfl⟩, nofun⟩
  have clear : ∀ (i : Nat) (m : Machine), fanIn[i]? = some m → m.output = [] := by
    intro i m found
    have silent : ∀ m ∈ fanIn, m.output = [] := by
      simp only [fanIn, List.forall_mem_cons]
      exact ⟨rfl, rfl, rfl, nofun⟩
    exact silent m (List.mem_of_getElem? found)
  obtain ⟨-, settled, -, -, -, -, again⟩ := run_quiescent linked suspends (fun i m found _ => clear i m found) ran
  exact ⟨_, q, left, events, linked, ran, Option.some.inj ended, settled, again⟩

end IntegerMachine.Lockstep
