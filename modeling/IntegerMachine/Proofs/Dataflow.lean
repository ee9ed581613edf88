import IntegerMachine.Proofs.Suspension
import Mathlib.Logic.Equiv.Defs

/-!
# Linked machines, one instruction at a time

A group of running machines in which the output of each goes to at most one other. One machine at a time
carries out an instruction, and what it writes arrives at once (`fire`). Instructions of different machines
commute, if no machine is linked to by two others (`fire_comm`). A group that can come to a standstill does so
whatever the order, after the same number of instructions and in the same way (`Steps.residual`).
-/
namespace IntegerMachine.Dataflow
variable {ι : Type}

/-- The machine without the output that its link has taken. -/
def shed (target : ι → Option ι) (i : ι) (m : Machine) : Machine := if (target i).isSome then m.drained else m

/-- A machine that can carry out its next instruction with what it has been fed. -/
structure Enabled (m : Machine) : Prop where
  running : m.state = .running
  served : ¬ m.Starving
  done : ∃ step, m.cycle.result = .ok step

/-- Every machine that runs lacks input. -/
def Quiescent (group : ι → Machine) : Prop := ∀ i, (group i).state = .running → (group i).Starving

/-- No machine is linked to by two others. -/
def SingleSource (target : ι → Option ι) : Prop := ∀ i j k, target i = some k → target j = some k → i = j

theorem shed_fed (target : ι → Option ι) (i : ι) (m : Machine) (words : List Word) :
    shed target i (m.fed words) = (shed target i m).fed words := by
  unfold shed
  split <;> rfl

theorem Quiescent.not_enabled {group : ι → Machine} (quiescent : Quiescent group) (i : ι) : ¬ Enabled (group i) :=
  fun enabled => enabled.served (quiescent i enabled.running)

theorem starving_of_fed {m : Machine} {words : List Word} (starving : (m.fed words).Starving) : m.Starving :=
  ⟨starving.1, List.append_eq_nil_iff.mp starving.2 |>.1⟩

theorem Enabled.fed {m : Machine} (enabled : Enabled m) (words : List Word) : Enabled (m.fed words) := by
  obtain ⟨step, done⟩ := enabled.done
  refine ⟨enabled.running, fun starving => enabled.served (starving_of_fed starving), step, ?_⟩
  rw [Machine.cycle_fed words enabled.served]
  exact done

theorem starving_of_shed {target : ι → Option ι} {i : ι} {m : Machine} (starving : (shed target i m).Starving) :
    m.Starving := by
  unfold shed at starving
  split at starving
  · exact starving
  · exact starving

/-- The links of a group whose machine `i` is machine `σ i` of another. -/
def relabel (σ : Equiv.Perm ι) (target : ι → Option ι) (i : ι) : Option ι := (target (σ i)).map σ.symm

theorem SingleSource.relabel {target : ι → Option ι} (single : SingleSource target) (σ : Equiv.Perm ι) :
    SingleSource (relabel σ target) := by
  intro i j k first second
  obtain ⟨k', linked, rfl⟩ := Option.map_eq_some_iff.mp first
  obtain ⟨k'', linked', same⟩ := Option.map_eq_some_iff.mp second
  rw [σ.symm.injective same] at linked'
  exact σ.injective (single _ _ _ linked linked')

variable [DecidableEq ι]

/-- The words that the link of `i` brings to `k`. -/
def sent (target : ι → Option ι) (i : ι) (words : List Word) (k : ι) : List Word :=
  if target i = some k then words else []

/-- The group once machine `i` has become `m` and its output has been delivered. -/
def settle (target : ι → Option ι) (i : ι) (m : Machine) (group : ι → Machine) (k : ι) : Machine :=
  (if k = i then shed target i m else group k).fed (sent target i m.output k)

/-- The group once machine `i` has carried out an instruction. -/
def fire (target : ι → Option ι) (i : ι) (group : ι → Machine) : ι → Machine :=
  settle target i (group i).cycle.machine group

/-- The machines of a group carry out some number of instructions. -/
inductive Steps (target : ι → Option ι) : Nat → (ι → Machine) → (ι → Machine) → Prop
  | refl (group : ι → Machine) : Steps target 0 group group
  | step {count : Nat} {group later : ι → Machine} (i : ι) (enabled : Enabled (group i))
      (steps : Steps target count (fire target i group) later) : Steps target (count + 1) group later

variable {target : ι → Option ι} {i j : ι} {group final : ι → Machine}

/-! ## Instructions commute -/

theorem sent_append (words more : List Word) (k : ι) :
    sent target i (words ++ more) k = sent target i words k ++ sent target i more k := by
  unfold sent
  split <;> rfl

theorem sent_append_comm (single : SingleSource target) (ne : i ≠ j) (words more : List Word) (k : ι) :
    sent target i words k ++ sent target j more k = sent target j more k ++ sent target i words k := by
  unfold sent
  by_cases first : target i = some k
  · have other : target j ≠ some k := fun second => ne (single i j k first second)
    rw [if_pos first, if_neg other, List.append_nil, List.nil_append]
  · rw [if_neg first, List.append_nil, List.nil_append]

theorem fire_of_ne (ne : j ≠ i) :
    fire target i group j = (group j).fed (sent target i (group i).cycle.machine.output j) := by
  simp only [fire, settle, if_neg ne]

/-- What has become of a group after an instruction of `i` and one of `j`. -/
theorem fire_fire (ne : j ≠ i) (served : ¬ (group j).Starving) (k : ι) :
    fire target j (fire target i group) k =
      (if k = j then shed target j (group j).cycle.machine
        else if k = i then shed target i (group i).cycle.machine else group k).fed
      (sent target i (group i).cycle.machine.output k ++ sent target j (group j).cycle.machine.output k) := by
  have cycled : (fire target i group j).cycle.machine =
      (group j).cycle.machine.fed (sent target i (group i).cycle.machine.output j) := by
    rw [fire_of_ne ne, Machine.cycle_fed _ served]
    rfl
  have written : (fire target i group j).cycle.machine.output = (group j).cycle.machine.output := by
    rw [cycled]
    rfl
  change (if k = j then shed target j (fire target i group j).cycle.machine else fire target i group k).fed
    (sent target j (fire target i group j).cycle.machine.output k) = _
  rw [written, cycled, ← Machine.fed_fed]
  by_cases last : k = j
  · subst last
    rw [if_pos rfl, if_pos rfl, shed_fed]
  · rw [if_neg last, if_neg last]
    rfl

theorem fire_comm (single : SingleSource target) (ne : i ≠ j) (first : Enabled (group i))
    (second : Enabled (group j)) : fire target j (fire target i group) = fire target i (fire target j group) := by
  funext k
  rw [fire_fire ne.symm second.served, fire_fire ne first.served, sent_append_comm single ne]
  congr 1
  by_cases last : k = j
  · have other : k ≠ i := fun same => ne (same.symm.trans last)
    rw [if_pos last, if_neg other, if_pos last]
  · rw [if_neg last, if_neg last]

/-! ## Standstill -/

theorem Steps.eq_of_quiescent {count : Nat} (steps : Steps target count group final) (quiescent : Quiescent group) :
    count = 0 ∧ final = group := by
  cases steps with
  | refl => exact ⟨rfl, rfl⟩
  | step i enabled => exact absurd enabled (quiescent.not_enabled i)

theorem Steps.trans {count more : Nat} {between : ι → Machine} (first : Steps target count group between)
    (second : Steps target more between final) : Steps target (more + count) group final := by
  induction first with
  | refl => exact second
  | step i enabled _ ih => exact .step i enabled (ih second)

/-- An instruction that can be carried out now is among those on the way to any standstill, and might as well
    be the first of them. -/
theorem Steps.residual_fire (single : SingleSource target) {count : Nat} (steps : Steps target count group final)
    (quiescent : Quiescent final) (enabled : Enabled (group i)) :
    ∃ rest, count = rest + 1 ∧ Steps target rest (fire target i group) final := by
  induction steps with
  | refl => exact absurd enabled (quiescent.not_enabled i)
  | @step count group final j other steps ih =>
    by_cases same : j = i
    · subst same
      exact ⟨count, rfl, steps⟩
    · -- Neither instruction disables the other, so that `i` can be moved to the front past `j`.
      have still : Enabled (fire target j group i) := by
        rw [fire_of_ne (Ne.symm same)]
        exact enabled.fed _
      have later : Enabled (fire target i group j) := by
        rw [fire_of_ne same]
        exact other.fed _
      obtain ⟨rest, rfl, ahead⟩ := ih quiescent still
      rw [fire_comm single same other enabled] at ahead
      exact ⟨rest + 1, rfl, .step j later ahead⟩

/-- However a group has begun, it can go on to any standstill that it could reach, and the instructions on
    either way are as many. -/
theorem Steps.residual (single : SingleSource target) {count more : Nat} {between : ι → Machine}
    (path : Steps target count group between) (steps : Steps target more group final) (quiescent : Quiescent final) :
    ∃ rest, more = rest + count ∧ Steps target rest between final := by
  induction path generalizing more with
  | refl => exact ⟨more, rfl, steps⟩
  | step i enabled _ ih =>
    obtain ⟨less, rfl, ahead⟩ := steps.residual_fire single quiescent enabled
    obtain ⟨rest, rfl, remaining⟩ := ih ahead
    exact ⟨rest, rfl, remaining⟩

/-- On the way to a standstill no machine is at an instruction that faults. -/
theorem Steps.enabled_of_served {count : Nat} (steps : Steps target count group final) (quiescent : Quiescent final)
    (running : (group i).state = .running) (served : ¬ (group i).Starving) : Enabled (group i) := by
  refine ⟨running, served, ?_⟩
  induction steps with
  | refl => exact absurd (quiescent i running) served
  | @step count group final j enabled steps ih =>
    by_cases same : i = j
    · exact same ▸ enabled.done
    · rw [fire_of_ne same] at ih
      obtain ⟨step, done⟩ := ih quiescent running fun starving => served (starving_of_fed starving)
      rw [Machine.cycle_fed _ served] at done
      exact ⟨step, done⟩

/-! ## Other indices -/

theorem sent_relabel (σ : Equiv.Perm ι) (words : List Word) (k : ι) :
    sent (relabel σ target) i words k = sent target (σ i) words (σ k) := by
  have same : relabel σ target i = some k ↔ target (σ i) = some (σ k) := by
    unfold relabel
    cases target (σ i) with
    | none => simp
    | some j => simp [Equiv.symm_apply_eq]
  unfold sent
  simp only [same]

theorem fire_relabel (σ : Equiv.Perm ι) (i : ι) (group : ι → Machine) :
    fire (relabel σ target) i (group ∘ σ) = fire target (σ i) group ∘ σ := by
  funext k
  simp only [fire, settle, Function.comp_apply, sent_relabel, σ.apply_eq_iff_eq, shed, relabel, Option.isSome_map]

theorem Steps.relabel {count : Nat} (steps : Steps target count group final) (σ : Equiv.Perm ι) :
    Steps (relabel σ target) count (group ∘ σ) (final ∘ σ) := by
  induction steps with
  | refl => exact .refl _
  | @step count group final i enabled steps ih =>
    have same := σ.apply_symm_apply i
    refine .step (σ.symm i) (by rw [Function.comp_apply, same]; exact enabled) ?_
    rw [fire_relabel, same]
    exact ih

/-! ## Runs -/

theorem settle_self (silent : (target i).isSome → (group i).output = []) : settle target i (group i) group = group := by
  funext k
  unfold settle
  have nothing : sent target i (group i).output k = [] := by
    unfold sent
    split
    · exact silent (by simp [*])
    · rfl
  have unshed : shed target i (group i) = group i := by
    unfold shed
    split
    · rename_i linked
      conv => rhs; rw [← (group i).holding_output_drained, silent linked, Machine.holding_nil]
    · rfl
  rw [nothing, unshed, Machine.fed_nil]
  split
  · rename_i same
    rw [same]
  · rfl

/-- The words that a machine has written and its link, if it has one, has taken. -/
theorem exists_taken (target : ι → Option ι) (i : ι) (m : Machine) :
    ∃ taken, m = (shed target i m).holding taken ∧
      (∀ m', shed target i (m'.holding taken) = shed target i m') ∧
      ∀ more k, sent target i (taken ++ more) k = sent target i m.output k ++ sent target i more k := by
  unfold shed
  by_cases linked : (target i).isSome
  · simp only [if_pos linked]
    exact ⟨m.output, m.holding_output_drained.symm, fun m' => rfl, fun more k => sent_append _ _ _⟩
  · simp only [if_neg linked]
    refine ⟨[], m.holding_nil.symm, Machine.holding_nil, fun more k => ?_⟩
    have nowhere : target i ≠ some k := fun some => linked (by rw [some]; rfl)
    simp only [sent, if_neg nowhere, List.append_nil]

theorem settle_apply_self (m : Machine) (group : ι → Machine) :
    settle target i m group i = (shed target i m).fed (sent target i m.output i) := by
  simp only [settle, if_true]

theorem starving_of_settle {m : Machine} (starving : (settle target i m group i).Starving) : m.Starving := by
  rw [settle_apply_self] at starving
  exact starving_of_shed (starving_of_fed starving)

theorem settle_state (m : Machine) (group : ι → Machine) : (settle target i m group i).state = m.state := by
  rw [settle_apply_self]
  unfold shed
  split <;> rfl

/-- It makes no difference whether the output of a machine is delivered before or after its next instruction. -/
theorem fire_settle (target : ι → Option ι) (i : ι) (group : ι → Machine) {m : Machine} (served : ¬ m.Starving) :
    (settle target i m group i).cycle.result = m.cycle.result ∧
      fire target i (settle target i m group) = settle target i m.cycle.machine group := by
  obtain ⟨taken, held, shedding, sending⟩ := exists_taken target i m
  have cycled : m.cycle = (shed target i m).cycle.map (·.holding taken) := by
    conv => lhs; rw [held, Machine.cycle_holding]
  have served' : ¬ (shed target i m).Starving := fun starving => served (starving_of_shed starving)
  have fed := Machine.cycle_fed (sent target i m.output i) served'
  rw [← settle_apply_self m group] at fed
  refine ⟨by rw [fed, cycled]; rfl, ?_⟩
  funext k
  let written : List Word := (shed target i m).cycle.machine.output
  have later : settle target i m.cycle.machine group k =
      (if k = i then shed target i (shed target i m).cycle.machine else group k).fed
        (sent target i m.output k ++ sent target i written k) := by
    unfold settle
    rw [cycled, ← sending]
    change (if k = i then shed target i ((shed target i m).cycle.machine.holding taken) else group k).fed
      (sent target i ((shed target i m).cycle.machine.holding taken).output k) = _
    rw [shedding, Machine.output_holding]
  rw [later, ← Machine.fed_fed]
  change (if k = i then shed target i (settle target i m group i).cycle.machine else settle target i m group k).fed
    (sent target i (settle target i m group i).cycle.machine.output k) = _
  rw [fed]
  change (if k = i then shed target i ((shed target i m).cycle.machine.fed _) else settle target i m group k).fed
    (sent target i written k) = _
  by_cases same : k = i
  · subst same
    rw [if_pos rfl, if_pos rfl, shed_fed]
  · rw [if_neg same, if_neg same]
    unfold settle
    rw [if_neg same]

theorem enabled_settle {m : Machine} (enabled : Enabled m) : Enabled (settle target i m group i) := by
  obtain ⟨step, done⟩ := enabled.done
  have served : ¬ (settle target i m group i).Starving := fun starving => enabled.served (starving_of_settle starving)
  refine ⟨(settle_state m group).trans enabled.running, served, step, ?_⟩
  rw [(fire_settle target i group enabled.served).1]
  exact done

/-- A machine that has come to rest, or lacks input and awaits it. -/
def Settled (m : Machine) : Prop := m.state.isTerminal ∨ m.state = .awaitingInput ∧ m.Starving

/-- A run of one machine, as instructions of the group. -/
theorem steps_of_runs (target : ι → Option ι) (i : ι) (group : ι → Machine) {m n : Machine} {state : RunState}
    (suspends : m.Suspends) (running : m.state = .running) (run : Machine.Runs m (.ok state) n) :
    ∃ count, Steps target count (settle target i m group) (settle target i n.launched group) ∧
      (count = 0 → n.outputCount = m.outputCount) ∧ Settled n := by
  generalize finished : (Except.ok state : Except Failure RunState) = result at run
  induction run with
  | rest stopped => exact absurd running stopped
  | fault => cases finished
  | @cycle m n step result _ done later ih =>
    by_cases starving : m.Starving
    · obtain ⟨events, starved⟩ := Machine.cycle_of_starving suspends running starving
      rw [starved] at later
      obtain ⟨-, rfl⟩ := later.unique (.rest (m := m.withState .awaitingInput) nofun)
      rw [Machine.launched_of_suspended running]
      exact ⟨0, .refl _, fun _ => rfl, .inr ⟨rfl, starving⟩⟩
    · have enabled : Enabled m := ⟨running, starving, step, done⟩
      have fired := (fire_settle target i group starving).2
      rcases Machine.cycle_cooperative suspends.mode running with
        ⟨-, state⟩ | ⟨-, -, starved, -⟩ | ⟨-, state⟩ | ⟨⟨text, fault, failed⟩, -⟩
      · obtain ⟨count, steps, -, settled⟩ := ih (suspends.of_config m.cycle_follows.config) state finished
        rw [← fired] at steps
        exact ⟨count + 1, .step i (enabled_settle enabled) steps, nofun, settled⟩
      · exact absurd starved starving
      · obtain ⟨-, rfl⟩ := later.unique (.rest (by rw [state]; exact nofun))
        have atRest : m.cycle.machine.state.isTerminal := by rw [state]; rfl
        rw [Machine.launched_of_terminal atRest, ← fired]
        exact ⟨1, .step i (enabled_settle enabled) (.refl _), nofun, .inl atRest⟩
      · cases failed.symm.trans done

/-- A machine of a group that can come to a standstill has a run. -/
theorem Steps.exists_runs (single : SingleSource target) {count : Nat} {m : Machine}
    (steps : Steps target count (settle target i m group) final) (quiescent : Quiescent final)
    (suspends : m.Suspends) (running : m.state = .running) : ∃ state n, Machine.Runs m (.ok state) n := by
  induction count using Nat.strongRecOn generalizing m with
  | ind count ih =>
    by_cases starving : m.Starving
    · obtain ⟨events, starved⟩ := Machine.cycle_of_starving suspends running starving
      refine ⟨.awaitingInput, m.withState .awaitingInput, .cycle running (by rw [starved]) ?_⟩
      rw [starved]
      exact .rest nofun
    · have enabled : Enabled (settle target i m group i) := by
        refine steps.enabled_of_served quiescent ((settle_state m group).trans running) fun starved => ?_
        exact starving (starving_of_settle starved)
      obtain ⟨result, fired⟩ := fire_settle target i group starving
      obtain ⟨step, done⟩ := enabled.done
      rw [result] at done
      obtain ⟨rest, rfl, ahead⟩ := steps.residual_fire single quiescent enabled
      rw [fired] at ahead
      by_cases still : m.cycle.machine.state = .running
      · obtain ⟨state, n, later⟩ :=
          ih rest (Nat.lt_succ_self rest) ahead (suspends.of_config m.cycle_follows.config) still
        exact ⟨state, n, .cycle running done later⟩
      · exact ⟨_, _, .cycle running done (.rest still)⟩

end IntegerMachine.Dataflow
