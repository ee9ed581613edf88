import IntegerMachine.Proofs.Receipts

/-!
# Idleness

A network is idle while the bus and all inputs are empty. When the bus has been silent for too long the router looks
whether that is so, node by node, while the others act on. If it is, the supervisor is told
(`Traffic.Looking`), unless a packet has come to the bus before the router looks there. Words that a node has left
unread when its worker was done stay on its input, so that the network is never idle again and the supervisor is told
no more (`Traffic.Stuck`).
-/
namespace IntegerMachine

namespace Network

/-- The nodes that are not at rest have read all their input. -/
def Drained (net : Network) : Prop :=
  ∀ node ∈ net.nodes, node.channel.state.isTerminal = false → node.channel.input = []

instance (net : Network) : Decidable net.Drained := List.decidableBAll _ _

/-- No node has words queued. -/
def Unfed (net : Network) : Prop := ∀ node ∈ net.nodes, node.channel.input = []

theorem isIdle_iff (net : Network) : net.isIdle = true ↔ net.bus = [] ∧ net.Unfed := by
  simp [isIdle, Unfed]

/-- Among drained nodes it takes one that came to rest with words left for the network not to be idle. -/
theorem Drained.isIdle_iff {net : Network} (drained : net.Drained) (bus : net.bus = []) :
    net.isIdle = true ↔ ∀ node ∈ net.nodes, node.channel.state.isTerminal → node.channel.input = [] := by
  rw [Network.isIdle_iff]
  constructor
  · rintro ⟨-, unfed⟩ node member -
    exact unfed node member
  · intro read
    refine ⟨bus, fun node member => ?_⟩
    cases atRest : node.channel.state.isTerminal with
    | true => exact read node member atRest
    | false => exact drained node member atRest

end Network

namespace Traffic
variable {σ : Type}

/-- The move is one of the router, with which it goes on. -/
def Move.isRoute : Move → Bool
  | .route _ => true
  | .work .. | .forward .. | .post | .halt _ | .shutDown => false

variable (supervise : Supervisor σ) {t : Traffic σ}

theorem notices_congr {u : Traffic σ} (same : u.router.supervisor = t.router.supervisor) : u.notices = t.notices :=
  congrArg (fun supervisor : σ × Minutes => supervisor.2.notices) same

theorem notices_act (sound : t.Sound) (move : Move) : t.notices <+: (t.act supervise move).notices := by
  rcases act_cases supervise sound.phase move with ⟨⟨_, _, _, told, balance⟩, -⟩ | aside
  · have later : (t.act supervise move).router.supervisor.2.notices = _ := congrArg Minutes.notices balance.minutes
    exact ⟨told.notices, (later.trans (Minutes.notices_append _ told)).symm⟩
  · have same : (t.act supervise move).notices = t.notices := notices_congr (congrArg (·.supervisor) aside.router)
    exact ⟨[], by rw [same, List.append_nil]⟩

/-! ## Empty inputs -/

/-- Empty inputs stay empty as long as the router feeds no one. -/
theorem unfed_act (sound : t.Sound) (unfed : t.network.Unfed) {move : Move}
    (feedless : ∀ i, (t.onNode supervise i move).words = []) : (t.act supervise move).network.Unfed := by
  intro node' member
  obtain ⟨i, present'⟩ := List.mem_iff_getElem?.mp member
  have nodes := act_nodes supervise sound.phase move i
  rw [present'] at nodes
  obtain ⟨node, present, rfl⟩ := Option.map_eq_some_iff.mp nodes.symm
  have strand := strand?_of_node present
  have flow := Strand.act_flow (sound.strands i _ strand) (t.onNode supervise i move)
  rw [feedless i, show (Strand.mk node (t.written i) (t.sentBy i)).node.channel.input = [] from
    unfed node (List.mem_of_getElem? present)] at flow
  exact (List.append_eq_nil_iff.mp flow.symm).2

/-- The router looks for something or asks its supervisor. -/
def Looks (t : Traffic σ) : Prop :=
  t.router.phase = .surveyingBus ∨ (∃ index, t.router.phase = .surveying index) ∨
    ∃ notice, t.router.phase = .consulting notice

/-- While the router looks, only its own moves change where it stands, and no node is fed. -/
theorem act_of_looks (sound : t.Sound) (looks : t.Looks) {move : Move} (other : move.isRoute = false) :
    (t.act supervise move).router = t.router ∧
      (t.network.Unfed → (t.act supervise move).network.Unfed) := by
  cases move with
  | route late => cases other
  | post =>
    have still : t.router.post t.network = (t.router, t.network) := by
      unfold Router.post
      rcases looks with phase | ⟨index, phase⟩ | ⟨notice, phase⟩ <;> rw [phase]
    refine ⟨congrArg Prod.fst still, fun unfed => ?_⟩
    have same : (t.act supervise .post).network = t.network := congrArg Prod.snd still
    rw [same]
    exact unfed
  | work index late | forward index late | halt index =>
    refine ⟨rfl, fun unfed => unfed_act supervise sound unfed fun i => ?_⟩
    simp only [onNode]
    split <;> rfl
  | shutDown => exact ⟨rfl, fun unfed => unfed_act supervise sound unfed fun i => rfl⟩

/-! ## Telling the supervisor -/

/-- The supervisor, which had been told so much before, is told that the network is idle, with the router's `n`th
    move from here at the latest. -/
def Looking (before : List Notice) (n : Nat) (t : Traffic σ) : Prop :=
  before ++ [.idle] <+: t.notices ∨
  t.notices = before ∧
    (t.router.phase = .consulting .idle ∧ 1 ≤ n ∨
      ∃ index, t.router.phase = .surveying index ∧ index ≤ t.network.nodes.length ∧
        t.network.nodes.length + 2 ≤ index + n ∧ t.network.Unfed)

variable {before : List Notice} {n : Nat}

theorem Looking.told (looking : Looking before 0 t) : before ++ [.idle] <+: t.notices := by
  rcases looking with told | ⟨-, ⟨-, few⟩ | ⟨index, -, inside, few, -⟩⟩
  · exact told
  · omega
  · omega

theorem Looking.act_other (sound : t.Sound) (looking : Looking before n t) {move : Move}
    (other : move.isRoute = false) : Looking before n (t.act supervise move) := by
  rcases looking with told | ⟨notices, looks⟩
  · exact .inl (told.trans (notices_act supervise sound move))
  · have busy : t.Looks := by
      rcases looks with ⟨phase, -⟩ | ⟨index, phase, -⟩
      · exact .inr (.inr ⟨_, phase⟩)
      · exact .inr (.inl ⟨index, phase⟩)
    obtain ⟨router, unfed⟩ := act_of_looks supervise sound busy other
    refine .inr ⟨(notices_congr (congrArg (·.supervisor) router)).trans notices, ?_⟩
    rw [router, act_length supervise sound.phase]
    exact looks.imp_right fun ⟨index, phase, inside, few, empty⟩ => ⟨index, phase, inside, few, unfed empty⟩

theorem Looking.act_route (sound : t.Sound) (looking : Looking before n t) (late : Bool) :
    Looking before (n - 1) (t.act supervise (.route late)) := by
  rcases looking with told | ⟨notices, ⟨phase, few⟩ | ⟨index, phase, inside, few, unfed⟩⟩
  · exact .inl (told.trans (notices_act supervise sound _))
  · -- the supervisor is asked with this move
    have asked : (t.act supervise (.route late)).notices = t.notices ++ [.idle] := by
      change (t.router.step supervise.recorded late t.network).1.supervisor.2.notices = _
      simp only [Router.step, phase, Supervisor.recorded]
      rcases supervise t.router.supervisor.1 .idle with ⟨control, memory⟩
      cases control <;> exact Minutes.notices_append ..
    rw [notices] at asked
    exact .inl ⟨[], by rw [asked, List.append_nil]⟩
  · cases present : t.network.nodes[index]? with
    | none =>
      have outside := List.getElem?_eq_none_iff.mp present
      have stepped : t.router.step supervise.recorded late t.network =
          ({ t.router with
              phase := .consulting .idle
              stats := { t.router.stats with idleEvents := t.router.stats.idleEvents + 1 } }, t.network) := by
        simp only [Router.step, phase, present]
      have same : (t.act supervise (.route late)).notices = t.notices :=
        notices_congr (congrArg (·.1.supervisor) stepped)
      refine .inr ⟨same.trans notices, .inl ⟨congrArg (·.1.phase) stepped, ?_⟩⟩
      omega
    | some node =>
      have empty : node.channel.input = [] := unfed node (List.mem_of_getElem? present)
      obtain ⟨within, -⟩ := List.getElem?_eq_some_iff.mp present
      have stepped : t.router.step supervise.recorded late t.network =
          ({ t.router with phase := .surveying (index + 1) }, t.network) := by
        simp [Router.step, phase, present, empty]
      have network : (t.act supervise (.route late)).network = t.network := congrArg Prod.snd stepped
      have same : (t.act supervise (.route late)).notices = t.notices :=
        notices_congr (congrArg (·.1.supervisor) stepped)
      refine .inr ⟨same.trans notices, .inr ⟨index + 1, ?_, ?_⟩⟩
      · exact congrArg (·.1.phase) stepped
      · rw [network]
        exact ⟨within, by omega, unfed⟩

theorem Looking.run (sound : t.Sound) (looking : Looking before n t) (moves : List Move) :
    Looking before (n - moves.countP Move.isRoute) (t.run supervise moves) := by
  induction moves generalizing t n with
  | nil => exact looking
  | cons move moves ih =>
    cases routes : move.isRoute with
    | true =>
      obtain ⟨late, rfl⟩ : ∃ late, move = .route late := by
        cases move with
        | route late => exact ⟨late, rfl⟩
        | work | forward | post | halt | shutDown => cases routes
      rw [List.countP_cons_of_pos routes, Nat.add_comm, ← Nat.sub_sub]
      exact ih (sound.act supervise _) (looking.act_route supervise sound late)
    | false =>
      rw [List.countP_cons_of_neg (by simp [routes])]
      exact ih (sound.act supervise move) (looking.act_other supervise sound routes)

/-- While the router is about to look at the bus, nothing it goes by changes but the bus. -/
theorem run_surveyingBus (sound : t.Sound) (phase : t.router.phase = .surveyingBus) (unfed : t.network.Unfed)
    {others : List Move} (quiet : ∀ move ∈ others, move.isRoute = false) :
    (t.run supervise others).router = t.router ∧ (t.run supervise others).network.Unfed := by
  induction others generalizing t with
  | nil => exact ⟨rfl, unfed⟩
  | cons move others ih =>
    obtain ⟨router, kept⟩ := act_of_looks supervise sound (.inl phase) (quiet move List.mem_cons_self)
    obtain ⟨same, empty⟩ := ih (sound.act supervise move) ((congrArg (·.phase) router).trans phase) (kept unfed)
      fun other member => quiet other (List.mem_cons_of_mem move member)
    exact ⟨same.trans router, empty⟩

theorem run_sound (sound : t.Sound) (moves : List Move) : (t.run supervise moves).Sound :=
  run_keeps (fun _ _ sound move => sound.act supervise move) sound sound moves

theorem run_length (sound : t.Sound) (moves : List Move) :
    (t.run supervise moves).network.nodes.length = t.network.nodes.length :=
  run_keeps (P := fun u => u.network.nodes.length = t.network.nodes.length)
    (fun _ sound before move => (act_length supervise sound.phase move).trans before) sound rfl moves

/-- A router that finds the bus empty surveys the inputs, and tells the supervisor if they are empty too. -/
theorem survey_told (sound : t.Sound) (phase : t.router.phase = .surveyingBus) (unfed : t.network.Unfed)
    (silent : t.network.bus = []) (late : Bool) {more : List Move}
    (enough : t.network.nodes.length + 2 ≤ more.countP Move.isRoute) :
    t.notices ++ [.idle] <+: (t.run supervise (.route late :: more)).notices := by
  have stepped : t.router.step supervise.recorded late t.network =
      ({ t.router with phase := .surveying 0 }, t.network) := by
    simp [Router.step, phase, silent]
  have network : (t.act supervise (.route late)).network = t.network := congrArg Prod.snd stepped
  have looking : Looking t.notices (t.network.nodes.length + 2) (t.act supervise (.route late)) := by
    refine .inr ⟨notices_congr (congrArg (·.1.supervisor) stepped),
      .inr ⟨0, congrArg (·.1.phase) stepped, Nat.zero_le _, ?_, ?_⟩⟩
    · exact Nat.le_of_eq (by rw [network, Nat.zero_add])
    · rw [network]
      exact unfed
  have told := looking.run supervise (sound.act supervise (.route late)) more
  rw [Nat.sub_eq_zero_of_le enough] at told
  exact told.told

/-- When the bus of an idle network has been silent for too long, the supervisor is told, if the bus is still empty
    when the router looks. -/
theorem idle_told (sound : t.Sound) (idle : t.network.isIdle = true) (waits : t.router.phase = .receiving)
    (connected : t.network.isDisconnected = false) {others : List Move}
    (quiet : ∀ move ∈ others, move.isRoute = false)
    (silent : (t.run supervise (.route true :: others)).network.bus = []) (late : Bool) {more : List Move}
    (enough : t.network.nodes.length + 2 ≤ more.countP Move.isRoute) :
    t.notices ++ [.idle] <+: (t.run supervise (.route true :: others ++ .route late :: more)).notices := by
  obtain ⟨bus, unfed⟩ := t.network.isIdle_iff.mp idle
  have timeout : t.router.step supervise.recorded true t.network =
      ({ t.router with phase := .surveyingBus }, t.network) := by
    simp [Router.step, waits, bus, connected]
  have network : (t.act supervise (.route true)).network = t.network := congrArg Prod.snd timeout
  have router : (t.act supervise (.route true)).router = { t.router with phase := .surveyingBus } :=
    congrArg Prod.fst timeout
  have empty : (t.act supervise (.route true)).network.Unfed := by
    rw [network]
    exact unfed
  obtain ⟨same, empty⟩ :=
    run_surveyingBus supervise (sound.act supervise (.route true)) (congrArg (·.phase) router) empty quiet
  have same : (t.run supervise (.route true :: others)).router = { t.router with phase := .surveyingBus } :=
    same.trans router
  have soundThen : (t.run supervise (.route true :: others)).Sound := run_sound supervise sound _
  have notices : (t.run supervise (.route true :: others)).notices = t.notices :=
    notices_congr (congrArg (·.supervisor) same)
  rw [← run_length supervise sound (.route true :: others)] at enough
  rw [run_append, ← notices]
  exact survey_told supervise soundThen (congrArg (·.phase) same) empty silent late enough

/-! ## Words that nobody reads -/

/-- The worker of a node is done, and has left words unread. -/
def Stuck (i : Nat) (t : Traffic σ) : Prop :=
  ∃ node, t.network.nodes[i]? = some node ∧ node.worker.isDone = true ∧ node.channel.input ≠ []

end Traffic

theorem Worker.step_of_done {w : Worker} (done : w.isDone = true) (late : Bool) :
    (w.step late).isDone = true ∧ w.receipt? late = none := by
  obtain ⟨m, phase, events⟩ := w
  cases phase with
  | finished | failed | collapsed => exact ⟨rfl, rfl⟩
  | _ => cases done

theorem Node.moved_isDone {node : Node} (done : node.worker.isDone = true) (size : Nat) (move : Strand.Move) :
    (node.moved size move).worker.isDone = true ∧ node.receipt? move = none := by
  cases move with
  | work late => exact Worker.step_of_done done late
  | forward | feed => exact ⟨done, rfl⟩
  | halt =>
    refine ⟨?_, rfl⟩
    rcases node.worker.halt_cases with ⟨-, same⟩ | ⟨-, same⟩
    · simp only [moved, same]
      exact done
    · simp only [moved, same]
      exact done

/-- A survey of the inputs that has not come beyond this node. -/
def Router.Phase.Short (i : Nat) : Router.Phase → Prop
  | .surveying index => index ≤ i
  | .consulting .idle => False
  | _ => True

namespace Router
variable {σ : Type} (supervise : Supervisor σ) {i : Nat}

/-- A router that is told what to do does not survey the inputs at once. -/
theorem short_obey {τ : Type} (r : Router τ) (control : Control) (i : Nat) : (r.obey control).phase.Short i := by
  cases control <;> trivial

/-- A survey does not come beyond a node with words left, so that the supervisor is not told of idleness. -/
theorem short_step {r : Router (σ × Minutes)} {net : Network} {node : Node}
    (present : net.nodes[i]? = some node) (left : node.channel.input ≠ []) (short : r.phase.Short i) (late : Bool) :
    (r.step supervise.recorded late net).1.phase.Short i ∧
      (r.step supervise.recorded late net).1.supervisor.2.notices.count .idle =
        r.supervisor.2.notices.count .idle := by
  obtain ⟨phase, stats, memory, minutes⟩ := r
  have refused (stats : NetworkStats) (net : Network) (packet : Packet) (origin : Origin) {phase : Router.Phase} :
      (Router.refused ⟨phase, stats, (memory, minutes)⟩ net packet origin).1.phase.Short i ∧
        (Router.refused ⟨phase, stats, (memory, minutes)⟩ net packet origin).1.supervisor.2.notices.count .idle =
          minutes.notices.count .idle := by
    cases origin <;> exact ⟨trivial, rfl⟩
  cases phase with
  | receiving =>
    simp only [Router.step]
    cases net.bus with
    | cons packet bus => exact ⟨trivial, rfl⟩
    | nil =>
      simp only
      split
      · exact ⟨trivial, rfl⟩
      · cases late <;> exact ⟨trivial, rfl⟩
  | routing packet origin =>
    simp only [Router.step]
    cases net.index? packet.destination with
    | none => exact refused stats net packet origin
    | some index =>
      simp only
      split
      · exact ⟨trivial, rfl⟩
      · exact refused stats net packet origin
  | feeding index rest packet origin =>
    cases rest with
    | nil => exact ⟨trivial, rfl⟩
    | cons word rest =>
      simp only [Router.step]
      rcases net.feedNode index [word] with ⟨_ | _, fed⟩
      · exact refused stats fed packet origin
      · exact ⟨trivial, rfl⟩
  | surveyingBus =>
    refine ⟨?_, rfl⟩
    simp only [Router.step]
    split
    · exact Nat.zero_le i
    · trivial
  | surveying index =>
    have before : index ≤ i := short
    cases here : net.nodes[index]? with
    | none =>
      have outside := List.getElem?_eq_none_iff.mp here
      obtain ⟨inside, -⟩ := List.getElem?_eq_some_iff.mp present
      omega
    | some other =>
      refine ⟨?_, by simp only [Router.step, here]⟩
      simp only [Router.step, here]
      by_cases empty : other.channel.input.isEmpty
      · -- the node with words left is another one, further on
        have apart : index ≠ i := by
          rintro rfl
          obtain rfl := Option.some.inj (here.symm.trans present)
          exact left (List.isEmpty_iff.mp empty)
        rw [if_pos empty]
        exact Nat.lt_of_le_of_ne before apart
      · rw [if_neg empty]
        trivial
  | consulting notice =>
    cases notice with
    | idle => exact short.elim
    | unroutable packet =>
      simp only [Router.step, Supervisor.recorded]
      rcases supervise memory (.unroutable packet) with ⟨control, memory'⟩
      refine ⟨short_obey _ control i, ?_⟩
      cases control <;> simp [Router.obey, Minutes.notices]
  | broadcasting index payload reached =>
    cases here : net.nodes[index]? with
    | none => simp only [Router.step, here, Router.Phase.Short, and_self]
    | some other =>
      refine ⟨?_, by simp only [Router.step, here]⟩
      simp only [Router.step, here]
      split <;> trivial
  | spreading index rest payload reached =>
    cases rest with
    | nil => exact ⟨trivial, rfl⟩
    | cons word rest =>
      simp only [Router.step]
      rcases net.feedNode index [word] with ⟨_ | _, fed⟩ <;> exact ⟨trivial, rfl⟩
  | stopped => exact ⟨trivial, rfl⟩

theorem short_post {r : Router (σ × Minutes)} (short : r.phase.Short i) (net : Network) :
    (r.post net).1.phase.Short i ∧ (r.post net).1.supervisor = r.supervisor := by
  unfold Router.post
  split
  · exact ⟨trivial, rfl⟩
  · exact ⟨trivial, rfl⟩
  · exact ⟨short, rfl⟩

end Router

namespace Traffic
variable {σ : Type} (supervise : Supervisor σ) {t : Traffic σ} {i : Nat}

theorem Stuck.act (sound : t.Sound) (stuck : t.Stuck i) (move : Move) : (t.act supervise move).Stuck i := by
  obtain ⟨node, present, done, left⟩ := stuck
  have nodes := act_nodes supervise sound.phase move i
  rw [present] at nodes
  obtain ⟨done', nothing⟩ := node.moved_isDone done t.network.config.packetSize (t.onNode supervise i move)
  have strand := strand?_of_node present
  have flow := Strand.act_flow (sound.strands i _ strand) (t.onNode supervise i move)
  refine ⟨_, nodes, done', fun empty => left ?_⟩
  have none : node.channel.input ++ (t.onNode supervise i move).words = [] := by
    refine flow.trans ?_
    rw [show (Strand.mk node (t.written i) (t.sentBy i)).node.receipt? (t.onNode supervise i move) = none from nothing]
    exact empty
  exact (List.append_eq_nil_iff.mp none).1

theorem Stuck.not_idle (stuck : t.Stuck i) : t.network.isIdle = false := by
  obtain ⟨node, present, -, left⟩ := stuck
  refine Bool.eq_false_iff.mpr fun idle => left ?_
  exact (t.network.isIdle_iff.mp idle).2 node (List.mem_of_getElem? present)

theorem Stuck.act_short (stuck : t.Stuck i) (short : t.router.phase.Short i) (move : Move) :
    (t.act supervise move).router.phase.Short i ∧
      (t.act supervise move).notices.count .idle = t.notices.count .idle := by
  obtain ⟨node, present, -, left⟩ := stuck
  cases move with
  | route late => exact Router.short_step supervise present left short late
  | post =>
    obtain ⟨short', same⟩ := Router.short_post short t.network
    exact ⟨short', congrArg (fun supervisor : σ × Minutes => supervisor.2.notices.count .idle) same⟩
  | work | forward | halt | shutDown => exact ⟨short, rfl⟩

/-- A network with words that nobody will read is not idle any more, and its supervisor is not told so. -/
theorem Stuck.run (sound : t.Sound) (stuck : t.Stuck i) (later : List Move) :
    (t.run supervise later).network.isIdle = false ∧
      (t.router.phase.Short i → (t.run supervise later).notices.count .idle = t.notices.count .idle) := by
  induction later generalizing t with
  | nil => exact ⟨stuck.not_idle, fun _ => rfl⟩
  | cons move later ih =>
    obtain ⟨awake, quiet⟩ := ih (sound.act supervise move) (stuck.act supervise sound move)
    refine ⟨awake, fun short => ?_⟩
    obtain ⟨short', same⟩ := stuck.act_short supervise short move
    exact (quiet short').trans same

/-! ## Dead nodes -/

variable {machines : List Machine} {config : NetworkConfig} {net : Network}

/-- If the bus is empty and all nodes that are not at rest have read their input, the network is idle unless a node
    came to rest with words left. If it is idle, the supervisor is told when the bus has been silent for too long and
    is still empty then. If a worker is done with words left, it is never told again. -/
theorem idle_unless_left (spawned : Network.spawn machines config = .ok net) (memory : σ) (moves : List Move)
    (ran : (opened net memory).run supervise moves = t) (bus : t.network.bus = []) (drained : t.network.Drained) :
    (t.network.isIdle = true ↔
      ∀ node ∈ t.network.nodes, node.channel.state.isTerminal → node.channel.input = []) ∧
    (t.network.isIdle = true → t.router.phase = .receiving → t.network.isDisconnected = false →
      ∀ others late more, (∀ move ∈ others, Move.isRoute move = false) →
        (t.run supervise (.route true :: others)).network.bus = [] →
        t.network.nodes.length + 2 ≤ more.countP Move.isRoute →
        t.notices ++ [.idle] <+: (t.run supervise (.route true :: others ++ .route late :: more)).notices) ∧
    ∀ (i : Nat) (node : Node), t.network.nodes[i]? = some node → node.worker.isDone = true → node.channel.input ≠ [] →
      ∀ later, (t.run supervise later).network.isIdle = false ∧
        (t.router.phase = .receiving → (t.run supervise later).notices.count .idle = t.notices.count .idle) := by
  have sound : t.Sound := ran ▸ run_sound supervise ((spawn_fresh spawned).sound memory) moves
  refine ⟨drained.isIdle_iff bus, ?_, ?_⟩
  · intro idle waits connected others late more quiet silent enough
    exact idle_told supervise sound idle waits connected quiet silent late enough
  · intro i node present done left later
    obtain ⟨awake, quiet⟩ := Stuck.run supervise sound ⟨node, present, done, left⟩ later
    refine ⟨awake, fun waits => quiet ?_⟩
    rw [waits]
    trivial

/-- A node that has ended, and one that reads for ever. -/
def ending : List Machine := [.ofProgram [99] {}, .ofProgram [3, 20, 1105, 1, 0] {}]

/-- The first node comes to its end, and the other one reads what is queued and more. -/
def endingMoves : List Move := List.replicate 9 (.work 0 false) ++ List.replicate 20 (.work 1 false)

/-- Without words left by the first node the supervisor is told that the network is idle. With its address left it is
    not told, however long the bus is silent. -/
theorem idle_unless_left_ending :
    (∃ net t, Network.spawn ending { bootWithAddress := false } = .ok net ∧
      (opened net ()).run sending endingMoves = t ∧ t.network.isIdle = true ∧
      [.idle] <+: (t.run sending (.route true :: [] ++ .route false :: List.replicate 4 (.route false))).notices) ∧
    ∃ net t, Network.spawn ending {} = .ok net ∧ (opened net ()).run sending endingMoves = t ∧
      ∀ later, (t.run sending later).network.isIdle = false ∧ (t.run sending later).notices.count .idle = 0 := by
  refine ⟨⟨_, _, rfl, rfl, by decide +kernel, ?_⟩, _, _, rfl, rfl, fun later => ?_⟩
  · have spawned : Network.spawn ending { bootWithAddress := false } = .ok _ := rfl
    obtain ⟨-, told, -⟩ := idle_unless_left sending spawned () endingMoves rfl (by decide +kernel)
      (by decide +kernel)
    exact told (by decide +kernel) (by decide +kernel) (by decide +kernel) [] false _ (by decide) (by decide +kernel)
      (by decide +kernel)
  · have spawned : Network.spawn ending {} = .ok _ := rfl
    obtain ⟨-, -, stuck⟩ := idle_unless_left sending spawned () endingMoves rfl (by decide +kernel)
      (by decide +kernel)
    obtain ⟨awake, quiet⟩ := stuck 0 _ rfl (by decide +kernel) (by decide +kernel) later
    exact ⟨awake, quiet (by decide +kernel)⟩

/-- The bus is empty and the node that still runs has read its input, but the network is not idle: the address of the
    node that has ended is still on its input. When the bus has been silent for too long, the router looks and waits
    on. -/
theorem dead_node_masks :
    ∃ net t, Network.spawn ending {} = .ok net ∧ (opened net ()).run sending endingMoves = t ∧
      t.network.bus = [] ∧ t.network.Drained ∧ t.network.isIdle = false ∧ t.router.phase = .receiving ∧
      (t.run sending [.route true, .route false, .route false]).router.phase = .receiving ∧
      (t.run sending [.route true, .route false, .route false]).notices = [] :=
  ⟨_, _, rfl, rfl, by decide +kernel, by decide +kernel, by decide +kernel, by decide +kernel, by decide +kernel,
    by decide +kernel⟩

end Traffic

end IntegerMachine
