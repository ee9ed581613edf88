import IntegerMachine.Proofs.Rounds

/-!
# The arrangement of a lockstep

In which order the machines of a lockstep stand makes no difference to what becomes of them (`run_permuted`).
The turns of a lockstep are instructions of the group (`Turns.steps`), so that it comes to a standstill of the
group, and the group has only one. In the other direction a group that can come to a standstill has rounds
(`exists_rounds`), since each round that is not silent takes it nearer.

A lockstep drops what is written to a machine at rest, where the group queues it. Until a machine has come to
rest it has been fed the same words in both (`Tracks`).
-/
namespace IntegerMachine.Lockstep
open Dataflow
variable {n : Nat} {target : Fin n → Option (Fin n)} {group flow left : Fin n → Machine} {i : Fin n} {m : Machine}

/-- A machine of a lockstep beside its counterpart in the group, which has been fed more only if it is at
    rest. -/
def Tracks (m m' : Machine) : Prop :=
  ∃ lost, m' = m.launched.fed lost ∧ (m.state.isTerminal = false → lost = [])

theorem tracks_launched (m : Machine) : Tracks m m.launched := ⟨[], m.launched.fed_nil.symm, fun _ => rfl⟩

theorem Tracks.of_live {m' : Machine} (tracks : Tracks m m') (live : m.state.isTerminal = false) : m' = m.launched := by
  obtain ⟨lost, rfl, none⟩ := tracks
  rw [none live, Machine.fed_nil]

theorem Tracks.accept {m' : Machine} (tracks : Tracks m m') (words : List Word) :
    Tracks (accept m words) (m'.fed words) := by
  unfold Lockstep.accept
  cases rest : m.state.isTerminal with
  | true =>
    obtain ⟨lost, rfl, -⟩ := tracks
    rw [if_pos rfl, Machine.fed_fed]
    exact ⟨lost ++ words, rfl, fun live => absurd (rest.symm.trans live) nofun⟩
  | false =>
    rw [if_neg nofun, tracks.of_live rest, ← Machine.launched_fed]
    exact tracks_launched _

theorem tracks_shed (m : Machine) : Tracks (shed target i m) (shed target i m.launched) := by
  have same : shed target i m.launched = (shed target i m).launched := by
    unfold shed
    split
    · exact m.launched_drained.symm
    · rfl
  rw [same]
  exact tracks_launched _

/-- A group of machines that suspend and whose links have taken all output. -/
structure Ready (target : Fin n → Option (Fin n)) (group : Fin n → Machine) : Prop where
  suspends : ∀ i, (group i).Suspends
  clear : ∀ i, (target i).isSome → (group i).output = []

theorem accept_config (m : Machine) (words : List Word) : (accept m words).config = m.config := by
  unfold accept
  split <;> rfl

theorem accept_output (m : Machine) (words : List Word) : (accept m words).output = m.output := by
  unfold accept
  split <;> rfl

theorem accept_state (m : Machine) (words : List Word) : (accept m words).state = m.state := by
  unfold accept
  split <;> rfl

theorem accept_input (m : Machine) (words : List Word) :
    (accept m words).channel.input = m.channel.input ++ if m.state.isTerminal then [] else words := by
  unfold accept
  split
  · exact (List.append_nil _).symm
  · rfl

theorem Ready.handOn (ready : Ready target group) (config : m.config = (group i).config) :
    Ready target (handOn target i m group) := by
  refine ⟨fun k => ?_, fun k linked => ?_⟩
  · refine (ready.suspends k).of_config ?_
    rw [Lockstep.handOn, accept_config]
    by_cases same : k = i
    · subst same
      rw [if_pos rfl, ← config]
      unfold shed
      split <;> rfl
    · rw [if_neg same]
  · rw [Lockstep.handOn, accept_output]
    by_cases same : k = i
    · subst same
      rw [if_pos rfl, shed, if_pos linked]
      rfl
    · rw [if_neg same]
      exact ready.clear k linked

/-! ## Turns -/

theorem settle_of_tracks (ready : Ready target group) (tracks : ∀ k, Tracks (group k) (flow k))
    (live : (group i).state.isTerminal = false) : settle target i (group i).launched flow = flow := by
  rw [← (tracks i).of_live live]
  refine settle_self fun linked => ?_
  rw [(tracks i).of_live live, Machine.launched_output]
  exact ready.clear i linked

/-- A turn, as instructions of the group. -/
theorem steps_of_turn {state : RunState} (ready : Ready target group) (tracks : ∀ k, Tracks (group k) (flow k))
    (live : (group i).state.isTerminal = false) (run : Machine.Runs (group i).launched (.ok state) m) :
    ∃ count later, Steps target count flow later ∧ (∀ k, Tracks (handOn target i m group k) (later k)) ∧
      Ready target (handOn target i m group) ∧ (count = 0 → m.outputCount = (group i).outputCount) ∧ Settled m := by
  have suspends : (group i).launched.Suspends := (ready.suspends i).of_config (group i).launched_config
  have config : m.config = (group i).config := run.follows.config.trans (group i).launched_config
  obtain ⟨count, steps, silent, settled⟩ :=
    steps_of_runs target i flow suspends (Machine.launched_running live) run
  rw [settle_of_tracks ready tracks live] at steps
  refine ⟨count, _, steps, fun k => ?_, ready.handOn config, fun none => ?_, settled⟩
  · unfold settle handOn
    rw [Machine.launched_output]
    refine Tracks.accept ?_ _
    by_cases same : k = i
    · rw [if_pos same, if_pos same]
      exact tracks_shed m
    · rw [if_neg same, if_neg same]
      exact tracks k
  · rw [silent none, Machine.launched_outputCount]

theorem handOn_of_silent {state : RunState} (ready : Ready target group)
    (run : Machine.Runs (group i).launched (.ok state) m) (silent : m.outputCount = (group i).outputCount)
    (k : Fin n) : handOn target i m group k = if k = i then shed target i m else group k := by
  have nothing : sent target i m.output k = [] := by
    unfold sent
    by_cases linked : target i = some k
    · obtain ⟨words, written, count⟩ := run.follows.written
      rw [silent, Machine.launched_outputCount] at count
      have none : words = [] := List.length_eq_zero_iff.mp (by omega)
      have before : (group i).launched.output = [] := by
        rw [Machine.launched_output]
        exact ready.clear i (by rw [linked]; rfl)
      rw [if_pos linked, Machine.output, written, none]
      simpa [Machine.output] using before
    · rw [if_neg linked]
  rw [handOn, nothing, accept_nil]

theorem settled_shed (settled : Settled m) : Settled (shed target i m) := by
  unfold shed
  split <;> exact settled

/-- Turns, as instructions of the group. If they are silent, the machines concerned have settled, and those
    that had settled before still have. -/
theorem Turns.steps {indices : List (Fin n)} {produced : Bool} (turns : Turns target indices group produced left)
    (ready : Ready target group) (tracks : ∀ k, Tracks (group k) (flow k)) :
    ∃ count later, Steps target count flow later ∧ (∀ k, Tracks (left k) (later k)) ∧ Ready target left ∧
      (produced = true → 0 < count) ∧
      (produced = false → ∀ k, k ∈ indices ∨ Settled (group k) → Settled (left k)) := by
  induction turns generalizing flow with
  | done group =>
    refine ⟨0, flow, .refl flow, tracks, ready, nofun, fun _ k settled => ?_⟩
    rcases settled with member | settled
    · cases member
    · exact settled
  | @out i indices group left produced atRest later ih =>
    obtain ⟨count, flow', steps, tracks', ready', busy, quiet⟩ := ih ready tracks
    refine ⟨count, flow', steps, tracks', ready', busy, fun silent k settled => quiet silent k ?_⟩
    rcases settled with member | settled
    · rcases List.mem_cons.mp member with rfl | member
      · exact .inr (.inl atRest)
      · exact .inl member
    · exact .inr settled
  | @turn i indices group left produced state m live run later ih =>
    obtain ⟨first, between, begun, tracks', ready', unmoved, settled⟩ := steps_of_turn ready tracks live run
    obtain ⟨second, flow', steps, tracks'', ready'', busy, quiet⟩ := ih ready' tracks'
    refine ⟨second + first, flow', begun.trans steps, tracks'', ready'', fun wrote => ?_, fun silent k before => ?_⟩
    · rcases Bool.or_eq_true_iff.mp wrote with here | there
      · have moved : first ≠ 0 := fun none => by simp [unmoved none] at here
        omega
      · have := busy there
        omega
    · obtain ⟨here, there⟩ := Bool.or_eq_false_iff.mp silent
      have same : m.outputCount = (group i).outputCount := by simpa using here
      refine quiet there k ?_
      rw [handOn_of_silent ready run same]
      by_cases own : k = i
      · rw [if_pos own]
        exact .inr (settled_shed settled)
      · rw [if_neg own]
        rcases before with member | before
        · exact .inl ((List.mem_cons.mp member).resolve_left own)
        · exact .inr before

/-- The machines of a group that can come to a standstill have their turns. -/
theorem exists_turns {final : Fin n → Machine} (single : SingleSource target) (quiescent : Quiescent final)
    (indices : List (Fin n)) {total : Nat} (ready : Ready target group) (tracks : ∀ k, Tracks (group k) (flow k))
    (steps : Steps target total flow final) : ∃ produced left, Turns target indices group produced left := by
  induction indices generalizing group flow total with
  | nil => exact ⟨false, group, .done group⟩
  | cons i indices ih =>
    cases rest : (group i).state.isTerminal with
    | true =>
      obtain ⟨produced, left, later⟩ := ih ready tracks steps
      exact ⟨produced, left, .out rest later⟩
    | false =>
      have suspends : (group i).launched.Suspends := (ready.suspends i).of_config (group i).launched_config
      have path := steps
      rw [← settle_of_tracks ready tracks rest] at path
      obtain ⟨state, m, run⟩ := path.exists_runs single quiescent suspends (Machine.launched_running rest)
      obtain ⟨count, between, begun, tracks', ready', -⟩ := steps_of_turn ready tracks rest run
      obtain ⟨remaining, -, ahead⟩ := begun.residual single steps quiescent
      obtain ⟨produced, left, later⟩ := ih ready' tracks' ahead
      exact ⟨_, left, .turn rest run later⟩

/-! ## Rounds -/

theorem quiescent_of_settled (tracks : ∀ k, Tracks (left k) (flow k)) (settled : ∀ k, Settled (left k)) :
    Quiescent flow := by
  intro k running
  rcases settled k with atRest | ⟨awaiting, starving⟩
  · obtain ⟨lost, same, -⟩ := tracks k
    rw [same, Machine.launched_of_terminal atRest] at running
    exact absurd running (RunState.stopped_of_terminal atRest)
  · have live : (left k).state.isTerminal = false := by rw [awaiting]; rfl
    rw [(tracks k).of_live live, Machine.launched_of_awaiting awaiting]
    exact starving

theorem Rounds.steps (rounds : Rounds target group left) (ready : Ready target group)
    (tracks : ∀ k, Tracks (group k) (flow k)) :
    ∃ count later, Steps target count flow later ∧ (∀ k, Tracks (left k) (later k)) ∧ ∀ k, Settled (left k) := by
  induction rounds generalizing flow with
  | last silent =>
    obtain ⟨count, later, steps, tracks', -, -, quiet⟩ := silent.steps ready tracks
    exact ⟨count, later, steps, tracks', fun k => quiet rfl k (.inl (List.mem_finRange k))⟩
  | next round later ih =>
    obtain ⟨first, between, begun, tracks', ready', -⟩ := round.steps ready tracks
    obtain ⟨second, flow', steps, tracks'', settled⟩ := ih ready' tracks'
    exact ⟨second + first, flow', begun.trans steps, tracks'', settled⟩

/-- A group that can come to a standstill has rounds. -/
theorem exists_rounds {final : Fin n → Machine} (single : SingleSource target) (quiescent : Quiescent final)
    {total : Nat} (ready : Ready target group) (tracks : ∀ k, Tracks (group k) (flow k))
    (steps : Steps target total flow final) : ∃ left, Rounds target group left := by
  -- The instructions left on the way to the standstill bound the rounds: one that is not silent takes some.
  induction total using Nat.strongRecOn generalizing group flow with
  | ind total ih =>
    obtain ⟨produced, left, round⟩ := exists_turns single quiescent (List.finRange n) ready tracks steps
    obtain ⟨count, later, begun, tracks', ready', busy, -⟩ := round.steps ready tracks
    obtain ⟨rest, rfl, ahead⟩ := begun.residual single steps quiescent
    cases produced with
    | false => exact ⟨left, .last round⟩
    | true =>
      have moved := busy rfl
      obtain ⟨final, rounds⟩ := ih rest (by omega) ready' tracks' ahead
      exact ⟨final, .next round rounds⟩

/-! ## Other arrangements -/

/-- Two machines that cannot be told apart, unless by the words queued for them once they are at rest. -/
structure Agrees (m m' : Machine) : Prop extends Machine.SameProgress m m' where
  state : m'.state = m.state
  output : m'.output = m.output
  input : m.state.isTerminal = false → m'.channel.input = m.channel.input

theorem sameProgress_of_mapChannel {m m' : Machine} {f g : Channel → Channel}
    (same : m.mapChannel f = m'.mapChannel g) : Machine.SameProgress m m' where
  memory := (congrArg Machine.memory same).symm
  ip := (congrArg Machine.ip same).symm
  relativeBase := (congrArg Machine.relativeBase same).symm
  steps := (congrArg Machine.steps same).symm
  outputCount := (congrArg Machine.outputCount same).symm
  lastOutput := (congrArg Machine.lastOutput same).symm

theorem Tracks.state_eq {m m' : Machine} (tracks : Tracks m m') : m'.state = m.launched.state := by
  obtain ⟨lost, rfl, -⟩ := tracks
  rfl

/-- Machines that have settled and whose counterparts are the same agree. -/
theorem agrees_of_tracks {m m' k : Machine} (tracks : Tracks m k) (tracks' : Tracks m' k) (settled : Settled m)
    (settled' : Settled m') : Agrees m m' := by
  have states := tracks.state_eq.symm.trans tracks'.state_eq
  rcases settled with atRest | ⟨awaiting, -⟩
  · rcases settled' with atRest' | ⟨awaiting', -⟩
    · obtain ⟨lost, rfl, -⟩ := tracks
      obtain ⟨lost', same, -⟩ := tracks'
      rw [Machine.launched_of_terminal atRest, Machine.launched_of_terminal atRest'] at same
      refine ⟨sameProgress_of_mapChannel same, (congrArg Machine.state same).symm, ?_, fun live => ?_⟩
      · exact (congrArg Machine.output same).symm
      · exact absurd (atRest.symm.trans live) nofun
    · rw [Machine.launched_of_terminal atRest, Machine.launched_of_awaiting awaiting'] at states
      exact absurd states (RunState.stopped_of_terminal atRest)
  · have live : m.state.isTerminal = false := by rw [awaiting]; rfl
    rcases settled' with atRest' | ⟨awaiting', -⟩
    · rw [Machine.launched_of_terminal atRest', Machine.launched_of_awaiting awaiting] at states
      exact absurd states.symm (RunState.stopped_of_terminal atRest')
    · have live' : m'.state.isTerminal = false := by rw [awaiting']; rfl
      have same := (tracks.of_live live).symm.trans (tracks'.of_live live')
      rw [Machine.launched_of_awaiting awaiting, Machine.launched_of_awaiting awaiting'] at same
      refine ⟨sameProgress_of_mapChannel same, awaiting'.trans awaiting.symm, ?_, fun _ => ?_⟩
      · exact (congrArg Machine.output same).symm
      · exact (congrArg (·.channel.input) same).symm

/-- The order of its machines makes no difference to a lockstep. Take machines that suspend when they lack
    input, have not written anything, and are linked to by at most one machine each. If their lockstep comes
    back well, then it does so in every other arrangement, and machine `i` of that one comes to agree with
    machine `σ i` of the first. -/
theorem run_permuted (suspends : ∀ i, (group i).Suspends) (silent : ∀ i, (group i).output = [])
    (single : SingleSource target) {fuel : Nat} {q : Quiescence} {machines : List Machine} {events : Array Event}
    (ran : run fuel (links target) (List.ofFn group) = some ⟨.ok q, machines, events⟩) (σ : Equiv.Perm (Fin n)) :
    ∃ left left' : Fin n → Machine, machines = List.ofFn left ∧ (∀ i, Agrees (left (σ i)) (left' i)) ∧
      ∃ bound, ∀ fuel', bound ≤ fuel' → ∃ q' events',
        run fuel' (links (relabel σ target)) (List.ofFn (group ∘ σ)) =
          some ⟨.ok q', List.ofFn left', events'⟩ := by
  obtain ⟨left, rounds, rfl⟩ := rounds_of_run ran
  have ready : Ready target group := ⟨suspends, fun i _ => silent i⟩
  have tracks : ∀ k, Tracks (group k) (group k).launched := fun k => tracks_launched (group k)
  obtain ⟨count, final, steps, tracked, settled⟩ := rounds.steps ready tracks
  have quiescent := quiescent_of_settled tracked settled
  have single' := single.relabel σ
  have ready' : Ready (relabel σ target) (group ∘ σ) := ⟨fun i => suspends (σ i), fun i _ => silent (σ i)⟩
  have tracks' : ∀ k, Tracks ((group ∘ σ) k) (((fun k => (group k).launched) ∘ σ) k) := fun k => tracks (σ k)
  have steps' := steps.relabel σ
  have quiescent' : Quiescent (final ∘ σ) := fun i => quiescent (σ i)
  obtain ⟨left', rounds'⟩ := exists_rounds single' quiescent' ready' tracks' steps'
  obtain ⟨count', final', begun, tracked', settled'⟩ := rounds'.steps ready' tracks'
  obtain ⟨rest, -, ahead⟩ := begun.residual single' steps' quiescent'
  obtain ⟨-, same⟩ := ahead.eq_of_quiescent (quiescent_of_settled tracked' settled')
  subst same
  refine ⟨left, left', rfl, fun i => ?_, rounds'.run_eventually⟩
  exact agrees_of_tracks (tracked (σ i)) (tracked' i) (settled (σ i)) (settled' i)

/-- A machine that writes one word and ends, and one that passes words on. -/
def duet (i : Fin 2) : Machine :=
  if i = 0 then .ofProgram [104, 5, 99] {} else .ofProgram [3, 7, 4, 7, 1105, 1, 0] {}

/-- The two machines are linked to each other. -/
theorem run_permuted_duet :
    ∃ q machines events, run 9 (links fun i : Fin 2 => some i.rev) (List.ofFn duet) = some ⟨.ok q, machines, events⟩ ∧
      ∃ left left' : Fin 2 → Machine, machines = List.ofFn left ∧
        (∀ i, Agrees (left (Equiv.swap 0 1 i)) (left' i)) ∧
        ∃ bound, ∀ fuel', bound ≤ fuel' → ∃ q' events',
          run fuel' (links (relabel (Equiv.swap 0 1) fun i : Fin 2 => some i.rev)) (List.ofFn (duet ∘ Equiv.swap 0 1)) =
            some ⟨.ok q', List.ofFn left', events'⟩ := by
  have well : (run 9 (links fun i : Fin 2 => some i.rev) (List.ofFn duet)).map (fun o => o.result.toOption) =
      some (some ⟨2, false⟩) := by decide +kernel
  obtain ⟨⟨result, machines, events⟩, ran, ended⟩ := Option.map_eq_some_iff.mp well
  obtain ⟨q, rfl⟩ : ∃ q, result = .ok q := by
    cases result with
    | error => cases ended
    | ok q => exact ⟨q, rfl⟩
  refine ⟨q, machines, events, ran, run_permuted (fun i => ?_) (fun i => ?_) (fun i j k first second => ?_) ran _⟩
  · unfold duet
    split
    · exact ⟨rfl, rfl⟩
    · exact ⟨rfl, rfl⟩
  · unfold duet
    split
    · rfl
    · rfl
  · exact Fin.rev_injective (Option.some.inj (first.trans second.symm))

end IntegerMachine.Lockstep
