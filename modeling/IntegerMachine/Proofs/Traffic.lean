import IntegerMachine.Proofs.Errands
import IntegerMachine.Proofs.Framing

/-!
# Traffic

The workers, the forwarders and the router of a network act in any order, and nodes are halted at any time. Each
node with its forwarder is a strand meanwhile (`Traffic.strand?_act`), and the router sees to its errands. So no
packet is lost, doubled or mixed up on the way from the output of a node to the input of another
(`Traffic.conserved`).
-/
namespace IntegerMachine

namespace Network

/-- The words queued for a node. -/
def input (net : Network) (i : Nat) : List Word := (net.nodes[i]?.map (·.channel.input)).getD []

/-- The words that a node has written and nobody has taken. -/
def output (net : Network) (i : Nat) : List Word := (net.nodes[i]?.map (·.channel.output.toList)).getD []

/-- Halts a node. -/
def haltNode (net : Network) (index : Nat) : Network :=
  { net with nodes := net.nodes.modify index fun node => { node with worker := node.worker.halt.2 } }

end Network

/-- A network with its router, and what has passed through its queues: the words written by each node and fed to it,
    the packets put on the bus by each forwarder, and those taken from it. -/
structure Traffic (σ : Type) where
  network : Network
  router : Router (σ × Minutes)
  written : Nat → List Word
  fed : Nat → List Word
  posted : List (Nat × Packet)
  taken : List Packet

inductive Traffic.Move where
  | work (index : Nat) (late : Bool)
  | forward (index : Nat) (late : Bool)
  | route (late : Bool)
  /-- The router feeds a word to a node that has been seen running before. -/
  | post
  | halt (index : Nat)
  | shutDown
  deriving DecidableEq

namespace Traffic
variable {σ : Type}

/-- A network whose router is about to start. -/
def opened (net : Network) (memory : σ) : Traffic σ :=
  ⟨net, Router.new (memory, []), net.output, fun _ => [], [], []⟩

/-- What a move comes to. -/
def next (supervise : Supervisor σ) (t : Traffic σ) : Move → Router (σ × Minutes) × Network
  | .work index late => (t.router, t.network.stepWorker index late)
  | .forward index late => (t.router, t.network.stepForwarder index late)
  | .route late => t.router.step supervise.recorded late t.network
  | .post => t.router.post t.network
  | .halt index => (t.router, t.network.haltNode index)
  | .shutDown => (t.router, { t.network with shuttingDown := true })

/-- The packets that are on the bus after a move and were not before, with the node that they come from. -/
def posts (before after : Network) : Move → List (Nat × Packet)
  | .forward index _ => (after.bus.drop before.bus.length).map fun packet => (index, packet)
  | .work .. | .route _ | .post | .halt _ | .shutDown => []

/-- A move, after which each queue is compared with what it was. -/
def act (supervise : Supervisor σ) (t : Traffic σ) (move : Move) : Traffic σ :=
  let (router, network) := t.next supervise move
  { network, router
    written := fun i => t.written i ++ (network.output i).drop (t.network.output i).length
    fed := fun i => t.fed i ++ (network.input i).drop (t.network.input i).length
    posted := t.posted ++ posts t.network network move
    taken := t.taken ++ t.network.bus.take (t.network.bus.length - network.bus.length) }

def run (supervise : Supervisor σ) (t : Traffic σ) (moves : List Move) : Traffic σ := moves.foldl (act supervise) t

/-- The move lets no wait for a payload run out. -/
def InTime (t : Traffic σ) : Move → Prop
  | .forward index late => late = true → ∀ node, t.network.nodes[index]? = some node →
    ∀ destination payload, node.forwarder ≠ .collecting destination payload .checkingClock
  | _ => True

/-- No wait for a payload runs out. -/
def Punctual (supervise : Supervisor σ) : Traffic σ → List Move → Prop
  | _, [] => True
  | t, move :: moves => t.InTime move ∧ Punctual supervise (t.act supervise move) moves

/-- The packets of a node that have been put on the bus. -/
def sentBy (t : Traffic σ) (i : Nat) : List Packet := (t.posted.filter (·.1 = i)).map Prod.snd

/-- The forwarder of a node has stopped without a shutdown. -/
def Retired (t : Traffic σ) (i : Nat) : Prop :=
  t.network.shuttingDown = false ∧ ∃ node, t.network.nodes[i]? = some node ∧ node.forwarder = .stopped

/-- What the supervisor has been told. -/
def notices (t : Traffic σ) : List Notice := t.router.supervisor.2.notices

/-- What the supervisor has had the router do, by the controls that it has returned. -/
def duties (t : Traffic σ) : List Duty := t.router.supervisor.2.duties t.network.nodes.length

/-- The errands are all that the router has done, up to the one under way: they account for the packets it has
    taken, the words each node has been fed, what the supervisor has been told and what it has had the router do.
    Each packet taken and each duty is the matter of one errand. -/
structure Accounted (t : Traffic σ) (errands : List Errand) : Prop where
  taken : t.taken = errands.flatMap Errand.taken ++ t.router.phase.carried
  fed : ∀ i, t.fed i = errands.flatMap (Errand.feeds i) ++ t.router.phase.fed i
  told : errands.flatMap Errand.notices = t.notices ++ t.router.phase.pending
  obeyed : t.duties = errands.flatMap Errand.discharged ++ t.router.phase.ahead t.network.nodes.length
  lawful : ∀ errand ∈ errands, errand.Lawful t.network

/-! ## Nodes as strands -/

/-- The strand of a node. -/
def strand? (t : Traffic σ) (i : Nat) : Option Strand :=
  t.network.nodes[i]?.map fun node => ⟨node, t.written i, t.sentBy i⟩

/-- What a move is to the node with an index. -/
def onNode (supervise : Supervisor σ) (t : Traffic σ) (i : Nat) (move : Move) : Strand.Move :=
  let fed := ((t.next supervise move).2.input i).drop (t.network.input i).length
  match move with
  | .work index late => if index = i then .work late else .feed []
  | .forward index late => if index = i then .forward t.network.shuttingDown late else .feed []
  | .route _ | .post => .feed fed
  | .halt index => if index = i then .halt else .feed []
  | .shutDown => .feed []

end Traffic

theorem Node.moved_nil (size : Nat) : (moved size · (.feed [])) = id := funext fed_nil

namespace Network

theorem modify_moved {size index i : Nat} {nodes : List Node} {move : Strand.Move} {f : Node → Node}
    (moved : f = (Node.moved size · move)) :
    (nodes.modify index f)[i]? = nodes[i]?.map (Node.moved size · (if index = i then move else .feed [])) := by
  rw [List.getElem?_modify, moved]
  by_cases here : index = i
  · simp only [if_pos here]
    rfl
  · simp only [if_neg here, Node.moved_nil]
    rfl

theorem stepForwarder_nodes (net : Network) (index : Nat) (late : Bool) (i : Nat) :
    (net.stepForwarder index late).nodes[i]? = net.nodes[i]?.map (Node.moved net.config.packetSize ·
      (if index = i then .forward net.shuttingDown late else .feed [])) := by
  unfold stepForwarder
  cases present : net.nodes[index]? with
  | none =>
    by_cases here : index = i
    · subst here
      rw [present]
      rfl
    · rw [if_neg here, Node.moved_nil, Option.map_id_fun, id]
  | some node =>
    simp only [List.getElem?_modify]
    by_cases here : index = i
    · subst here
      simp [present, Node.moved]
    · simp only [if_neg here, Node.moved_nil]
      rfl

theorem stepForwarder_kept (net : Network) (index : Nat) (late : Bool) :
    (net.stepForwarder index late).config = net.config ∧
      (net.stepForwarder index late).shuttingDown = net.shuttingDown := by
  unfold stepForwarder
  split <;> exact ⟨rfl, rfl⟩

theorem stepForwarder_bus (net : Network) (index : Nat) (late : Bool) :
    (net.stepForwarder index late).bus = net.bus ++ (net.nodes[index]?.bind fun node =>
      node.sent? net.config.packetSize (.forward net.shuttingDown late)).toList := by
  unfold stepForwarder
  cases net.nodes[index]? with
  | none => exact (List.append_nil _).symm
  | some node =>
    simp only [Option.bind_some, Node.sent?]
    cases (node.forwarder.step net.config.packetSize net.shuttingDown late node.channel).sent with
    | none => exact (List.append_nil _).symm
    | some packet => rfl

end Network

theorem Router.Balance.input {σ : Type} {net net' : Network} {r r' : Router (σ × Minutes)} {done : List Errand}
    {taken : List Packet} {fed : Nat → List Word} {told : Minutes}
    (balance : Balance net net' r r' done taken fed told) (i : Nat) :
    (net'.input i).drop (net.input i).length = fed i := by
  have nodes := balance.nodes i
  cases present : net.nodes[i]? with
  | none =>
    rw [balance.absent i present]
    simp [Network.input, nodes, present]
  | some node =>
    simp only [Network.input, nodes, present, Option.map_some, Option.getD_some]
    exact List.drop_left

namespace Traffic
variable {σ : Type} (supervise : Supervisor σ) {t : Traffic σ}

theorem act_nodes (sound : t.router.phase.Sound t.network) (move : Move) (i : Nat) :
    (t.act supervise move).network.nodes[i]? =
      t.network.nodes[i]?.map (Node.moved t.network.config.packetSize · (t.onNode supervise i move)) := by
  have routed {after : Router (σ × Minutes) × Network} (balanced : t.router.Balanced t.network after) :
      after.2.nodes[i]? = t.network.nodes[i]?.map
        (Node.moved t.network.config.packetSize · (.feed ((after.2.input i).drop (t.network.input i).length))) := by
    obtain ⟨done, taken, fed, told, balance⟩ := balanced
    rw [balance.input, balance.nodes]
    rfl
  cases move with
  | work index late => exact Network.modify_moved rfl
  | forward index late => exact t.network.stepForwarder_nodes index late i
  | route late => exact routed (Router.step_balanced supervise late sound)
  | post => exact routed (Router.post_balanced sound)
  | halt index => exact Network.modify_moved rfl
  | shutDown =>
    change _ = t.network.nodes[i]?.map (Node.moved t.network.config.packetSize · (.feed []))
    rw [Node.moved_nil, Option.map_id_fun]
    rfl

theorem sentBy_append {index : Nat} (sent : List Packet) (i : Nat) :
    ((t.posted ++ sent.map fun packet => (index, packet)).filter (·.1 = i)).map Prod.snd =
      t.sentBy i ++ if index = i then sent else [] := by
  rw [List.filter_append, List.map_append, List.filter_map]
  by_cases here : index = i
  · simp [sentBy, here, Function.comp_def]
  · simp [sentBy, here, Function.comp_def]

theorem act_sentBy (move : Move) {i : Nat} {node : Node} (present : t.network.nodes[i]? = some node) :
    (t.act supervise move).sentBy i = t.sentBy i ++
      (node.sent? t.network.config.packetSize (t.onNode supervise i move)).toList := by
  have quiet {move : Move} (posted : (t.act supervise move).posted = t.posted ++ [])
      (silent : node.sent? t.network.config.packetSize (t.onNode supervise i move) = none) :
      (t.act supervise move).sentBy i = t.sentBy i ++
        (node.sent? t.network.config.packetSize (t.onNode supervise i move)).toList := by
    rw [sentBy, posted, silent, List.append_nil]
    exact (List.append_nil _).symm
  cases move with
  | forward index late =>
    have posted : (t.act supervise (.forward index late)).posted = t.posted ++ (t.network.nodes[index]?.bind fun node =>
        node.sent? t.network.config.packetSize (.forward t.network.shuttingDown late)).toList.map
          fun packet => (index, packet) := by
      simp only [act, next, posts, Network.stepForwarder_bus, List.drop_left]
    rw [sentBy, posted, sentBy_append]
    by_cases here : index = i
    · subst here
      simp [onNode, present]
    · simp [onNode, here, Node.sent?]
  | work index late | halt index =>
    refine quiet rfl ?_
    simp only [onNode]
    split <;> rfl
  | route | post | shutDown => exact quiet rfl rfl

theorem strand?_of_node {i : Nat} {node : Node} (present : t.network.nodes[i]? = some node) :
    t.strand? i = some ⟨node, t.written i, t.sentBy i⟩ := by
  rw [strand?, present]
  rfl

/-- A move of the network is a move of each strand. -/
theorem strand?_act (sound : t.router.phase.Sound t.network) (move : Move) (i : Nat) :
    (t.act supervise move).strand? i =
      (t.strand? i).map (Strand.act t.network.config.packetSize · (t.onNode supervise i move)) := by
  have nodes := act_nodes supervise sound move i
  unfold strand?
  cases present : t.network.nodes[i]? with
  | none =>
    rw [nodes, present]
    rfl
  | some node =>
    have written : (t.act supervise move).written i = t.written i ++
        ((t.act supervise move).network.output i).drop (t.network.output i).length := rfl
    rw [present] at nodes
    rw [nodes, Option.map_some, act_sentBy supervise move present, written]
    simp only [Network.output, nodes, present]
    rfl

theorem exists_strand (sound : t.router.phase.Sound t.network) {move : Move} {i : Nat} {s' : Strand}
    (present : (t.act supervise move).strand? i = some s') :
    ∃ s, t.strand? i = some s ∧ s' = s.act t.network.config.packetSize (t.onNode supervise i move) := by
  rw [strand?_act supervise sound] at present
  obtain ⟨s, before, acted⟩ := Option.map_eq_some_iff.mp present
  exact ⟨s, before, acted.symm⟩

/-! ## What stays as it is -/

/-- What the router goes by is in order, and so is every strand. -/
structure Sound (t : Traffic σ) : Prop where
  phase : t.router.phase.Sound t.network
  strands : ∀ i s, t.strand? i = some s → s.Sound t.network.config.packetSize

/-- A move that is none of the router. It feeds no node, and only the packets of a forwarder come to the bus. -/
structure Aside (supervise : Supervisor σ) (t : Traffic σ) (move : Move) : Prop where
  router : (t.act supervise move).router = t.router
  config : (t.act supervise move).network.config = t.network.config
  down : t.network.shuttingDown = true → (t.act supervise move).network.shuttingDown = true
  feedless : ∀ i, (t.onNode supervise i move).words = []
  posted : ∃ sent, (t.act supervise move).posted.map Prod.snd = t.posted.map Prod.snd ++ sent ∧
    (t.act supervise move).network.bus = t.network.bus ++ sent

theorem forward_aside (index : Nat) (late : Bool) : Aside supervise t (.forward index late) where
  router := rfl
  config := (t.network.stepForwarder_kept index late).1
  down down := (t.network.stepForwarder_kept index late).2.trans down
  feedless i := by
    simp only [onNode]
    split <;> rfl
  posted := by
    refine ⟨_, ?_, t.network.stepForwarder_bus index late⟩
    simp [act, next, posts, Network.stepForwarder_bus, Function.comp_def]

theorem act_cases (sound : t.router.phase.Sound t.network) (move : Move) :
    (t.router.Balanced t.network ((t.act supervise move).router, (t.act supervise move).network) ∧
      (t.act supervise move).posted = t.posted) ∨
    Aside supervise t move := by
  have silent : t.posted ++ [] = t.posted := List.append_nil _
  cases move with
  | route late => exact .inl ⟨Router.step_balanced supervise late sound, silent⟩
  | post => exact .inl ⟨Router.post_balanced sound, silent⟩
  | forward index late => exact .inr (forward_aside supervise index late)
  | work index late | halt index =>
    refine .inr ⟨rfl, rfl, id, fun i => ?_, [], ?_, (List.append_nil _).symm⟩
    · simp only [onNode]
      split <;> rfl
    · exact (congrArg (List.map Prod.snd) silent).trans (List.append_nil _).symm
  | shutDown =>
    refine .inr ⟨rfl, rfl, fun _ => rfl, fun _ => rfl, [], ?_, (List.append_nil _).symm⟩
    exact (congrArg (List.map Prod.snd) silent).trans (List.append_nil _).symm

theorem act_config (sound : t.router.phase.Sound t.network) (move : Move) :
    (t.act supervise move).network.config = t.network.config := by
  rcases act_cases supervise sound move with ⟨⟨_, _, _, _, balance⟩, -⟩ | aside
  · exact balance.config
  · exact aside.config

theorem act_down (sound : t.router.phase.Sound t.network) (move : Move) (down : t.network.shuttingDown = true) :
    (t.act supervise move).network.shuttingDown = true := by
  rcases act_cases supervise sound move with ⟨⟨_, _, _, _, balance⟩, -⟩ | aside
  · exact balance.shuttingDown.trans down
  · exact aside.down down

theorem act_length (sound : t.router.phase.Sound t.network) (move : Move) :
    (t.act supervise move).network.nodes.length = t.network.nodes.length := by
  have same : (t.act supervise move).network.nodes = t.network.nodes.mapIdx fun i node =>
      node.moved t.network.config.packetSize (t.onNode supervise i move) := by
    refine List.ext_getElem? fun i => ?_
    rw [act_nodes supervise sound, List.getElem?_mapIdx]
  rw [same, List.length_mapIdx]

theorem act_isLive (sound : t.Sound) (move : Move) {i : Nat} (rest : t.network.isLive i = false) :
    (t.act supervise move).network.isLive i = false := by
  have nodes := act_nodes supervise sound.phase move i
  unfold Network.isLive at rest ⊢
  cases present : t.network.nodes[i]? with
  | none =>
    rw [nodes, present]
    rfl
  | some node =>
    rw [present] at rest
    have atRest : node.channel.state.isTerminal := by simpa using rest
    have strand := strand?_of_node present
    have state := Strand.act_rests (sound.strands i _ strand) (t.onNode supervise i move) atRest
    have stays : (node.moved t.network.config.packetSize (t.onNode supervise i move)).channel.state.isTerminal :=
      (congrArg RunState.isTerminal state).trans atRest
    rw [nodes, present]
    simp [stays]

theorem Sound.act (sound : t.Sound) (move : Move) : (t.act supervise move).Sound where
  phase := by
    rcases act_cases supervise sound.phase move with ⟨⟨_, _, _, _, balance⟩, -⟩ | aside
    · exact balance.sound
    · rw [aside.router]
      exact sound.phase.of_length (act_length supervise sound.phase move)
  strands i s' present := by
    obtain ⟨s, before, rfl⟩ := exists_strand supervise sound.phase present
    rw [act_config supervise sound.phase]
    exact (sound.strands i s before).act _

/-! ## The books of the router -/

section
variable {supervise}

theorem Aside.taken {move : Move} (aside : Aside supervise t move) : (t.act supervise move).taken = t.taken := by
  obtain ⟨sent, -, bus⟩ := aside.posted
  have fewer : t.network.bus.length - (t.act supervise move).network.bus.length = 0 := by
    rw [bus, List.length_append, Nat.sub_eq_zero_iff_le]
    exact Nat.le_add_right _ _
  change t.taken ++ t.network.bus.take (t.network.bus.length - (t.act supervise move).network.bus.length) = t.taken
  rw [fewer, List.take_zero, List.append_nil]

theorem Aside.fed {move : Move} (sound : t.Sound) (aside : Aside supervise t move) (i : Nat) :
    (t.act supervise move).fed i = t.fed i := by
  have nodes := act_nodes supervise sound.phase move i
  have none : ((t.act supervise move).network.input i).drop (t.network.input i).length = [] := by
    cases present : t.network.nodes[i]? with
    | none => simp [Network.input, nodes, present]
    | some node =>
      have strand := strand?_of_node present
      have input := Strand.act_input (sound.strands i _ strand) (t.onNode supervise i move)
      rw [aside.feedless] at input
      simp only [Network.input, nodes, present, Option.map_some, Option.getD_some]
      exact input
  change t.fed i ++ ((t.act supervise move).network.input i).drop (t.network.input i).length = t.fed i
  rw [none, List.append_nil]

theorem act_taken {move : Move} {taken : List Packet}
    (bus : t.network.bus = taken ++ (t.act supervise move).network.bus) :
    (t.act supervise move).taken = t.taken ++ taken := by
  change t.taken ++ t.network.bus.take (t.network.bus.length - (t.act supervise move).network.bus.length) = _
  have count : t.network.bus.length - (t.act supervise move).network.bus.length = taken.length := by
    rw [bus, List.length_append, Nat.add_sub_cancel]
  rw [count, bus, List.take_left]

end

theorem Accounted.act {errands : List Errand} (sound : t.Sound) (accounted : t.Accounted errands) (move : Move) :
    ∃ done, (t.act supervise move).Accounted (errands ++ done) := by
  have rests (i : Nat) (rest : t.network.isLive i = false) : (t.act supervise move).network.isLive i = false :=
    act_isLive supervise sound move rest
  have lawful : ∀ errand ∈ errands, errand.Lawful (t.act supervise move).network := fun errand member =>
    (accounted.lawful errand member).later (act_length supervise sound.phase move) rests
  have size := act_length supervise sound.phase move
  rcases act_cases supervise sound.phase move with ⟨⟨done, taken, fed, told, balance⟩, -⟩ | aside
  · refine ⟨done, ?_, fun i => ?_, ?_, ?_, ?_⟩
    · rw [act_taken balance.bus, accounted.taken, List.append_assoc, balance.packets, List.flatMap_append,
        List.append_assoc]
    · have later : (t.act supervise move).fed i = t.fed i ++ fed i := congrArg (t.fed i ++ ·) (balance.input i)
      rw [later, accounted.fed, List.append_assoc, balance.words, List.flatMap_append, List.append_assoc]
    · have later : (t.act supervise move).notices = t.notices ++ told.notices := by
        rw [notices, balance.minutes, Minutes.notices_append]
        rfl
      rw [later, List.flatMap_append, accounted.told, List.append_assoc, balance.pending, List.append_assoc]
    · have later : (t.act supervise move).duties = t.duties ++ told.duties t.network.nodes.length := by
        rw [duties, size, balance.minutes, Minutes.duties_append]
        rfl
      rw [later, size, accounted.obeyed, List.append_assoc, balance.duties, List.flatMap_append, List.append_assoc]
    · intro errand member
      rcases List.mem_append.mp member with before | now
      · exact lawful errand before
      · exact balance.lawful errand now
  · refine ⟨[], ?_, fun i => ?_, ?_, ?_, ?_⟩
    · rw [aside.taken, aside.router, List.append_nil]
      exact accounted.taken
    · rw [aside.fed sound, aside.router, List.append_nil]
      exact accounted.fed i
    · rw [notices, aside.router, List.append_nil]
      exact accounted.told
    · rw [duties, aside.router, size, List.append_nil]
      exact accounted.obeyed
    · rw [List.append_nil]
      exact lawful

/-- The errands of a run go on from those of every earlier part of it. -/
theorem accounted_along {errands : List Errand} (sound : t.Sound) (accounted : t.Accounted errands)
    (moves : List Move) :
    ∃ all, errands <+: all ∧ (t.run supervise moves).Accounted all ∧
      ∀ earlier, earlier <+: moves → ∃ done, done <+: all ∧ (t.run supervise earlier).Accounted done := by
  induction moves generalizing t errands with
  | nil =>
    refine ⟨errands, List.prefix_rfl, accounted, fun earlier first => ?_⟩
    rw [List.prefix_nil.mp first]
    exact ⟨errands, List.prefix_rfl, accounted⟩
  | cons move moves ih =>
    obtain ⟨done, later⟩ := accounted.act supervise sound move
    obtain ⟨all, goesOn, reached, along⟩ := ih (sound.act supervise move) later
    have first : errands <+: all := (List.prefix_append errands done).trans goesOn
    refine ⟨all, first, reached, fun earlier earliest => ?_⟩
    cases earlier with
    | nil => exact ⟨errands, first, accounted⟩
    | cons move' earlier =>
      obtain ⟨rfl, part⟩ := List.cons_prefix_cons.mp earliest
      exact along earlier part

/-- The packets put on the bus are those taken from it and those still there. -/
def Conveyed (t : Traffic σ) : Prop := t.posted.map Prod.snd = t.taken ++ t.network.bus

theorem Conveyed.act (sound : t.Sound) (conveyed : t.Conveyed) (move : Move) : (t.act supervise move).Conveyed := by
  unfold Conveyed at conveyed ⊢
  rcases act_cases supervise sound.phase move with ⟨⟨_, taken, _, _, balance⟩, posted⟩ | aside
  · rw [posted, conveyed, act_taken balance.bus, balance.bus, List.append_assoc]
  · obtain ⟨sent, posted, bus⟩ := aside.posted
    rw [posted, conveyed, aside.taken, bus, List.append_assoc]

/-! ## Strands of a network -/

theorem onNode_inTime {move : Move} (inTime : t.InTime move) {i : Nat} {s : Strand} (present : t.strand? i = some s) :
    s.InTime (t.onNode supervise i move) := by
  obtain ⟨node, here, rfl⟩ := Option.map_eq_some_iff.mp present
  cases move with
  | forward index late =>
    simp only [onNode]
    split
    · rename_i same
      exact fun lated => inTime lated node (same ▸ here)
    · trivial
  | work | halt =>
    simp only [onNode]
    split <;> trivial
  | route | post | shutDown => trivial

theorem onNode_forward {move : Move} {i : Nat} {shutdown late : Bool}
    (forward : t.onNode supervise i move = .forward shutdown late) : shutdown = t.network.shuttingDown := by
  cases move with
  | work | forward | halt =>
    simp only [onNode] at forward
    split at forward
    · cases forward <;> rfl
    · cases forward
  | route | post | shutDown => cases forward

/-- All strands are orderly. -/
def Orderly (t : Traffic σ) : Prop := ∀ i s, t.strand? i = some s → s.Orderly t.network.config.packetSize

theorem Orderly.act (sound : t.Sound) (orderly : t.Orderly) {move : Move} (inTime : t.InTime move) :
    (t.act supervise move).Orderly := by
  intro i s' present
  obtain ⟨s, before, rfl⟩ := exists_strand supervise sound.phase present
  rw [act_config supervise sound.phase]
  exact (orderly i s before).act (sound.strands i s before) (onNode_inTime supervise inTime before)

/-- Without a shutdown, forwarders have only stopped at the end of their work. -/
def Closed (t : Traffic σ) : Prop := t.network.shuttingDown = false → ∀ i s, t.strand? i = some s → s.Closed

theorem Closed.act (sound : t.Sound) (closed : t.Closed) (move : Move) : (t.act supervise move).Closed := by
  intro up i s' present
  have before : t.network.shuttingDown = false := by
    refine Bool.eq_false_iff.mpr fun down => ?_
    rw [act_down supervise sound.phase move down] at up
    cases up
  obtain ⟨s, here, rfl⟩ := exists_strand supervise sound.phase present
  refine (closed before i s here).act (sound.strands i s here) fun late forward => ?_
  have down := onNode_forward supervise forward
  rw [before] at down
  cases down

/-- The forwarder of a node has stopped at the end of its work. -/
def AtEnd (t : Traffic σ) (i : Nat) : Prop :=
  ∃ s, t.strand? i = some s ∧ s.node.forwarder = .stopped ∧ s.Closed

theorem AtEnd.act {i : Nat} (sound : t.Sound) (atEnd : t.AtEnd i) (move : Move) : (t.act supervise move).AtEnd i := by
  obtain ⟨s, present, stopped, closed⟩ := atEnd
  have stays := @Strand.act_stopped t.network.config.packetSize s stopped (t.onNode supervise i move)
  refine ⟨_, ?_, stays, closed.act (sound.strands i s present) fun _ _ => stopped⟩
  rw [strand?_act supervise sound.phase, present]
  rfl

theorem Closed.atEnd (closed : t.Closed) {i : Nat} (retired : t.Retired i) : t.AtEnd i := by
  obtain ⟨up, node, present, stopped⟩ := retired
  have strand := strand?_of_node present
  exact ⟨_, strand, stopped, closed up i _ strand⟩

/-! ## Runs of a network -/

section
variable {supervise}

theorem run_append (supervise : Supervisor σ) (t : Traffic σ) (moves more : List Move) :
    t.run supervise (moves ++ more) = (t.run supervise moves).run supervise more := List.foldl_append

/-- What every move keeps holds at the end of a run. -/
theorem run_keeps {P : Traffic σ → Prop} (keeps : ∀ t : Traffic σ, t.Sound → P t → ∀ move, P (t.act supervise move))
    (sound : t.Sound) (holds : P t) (moves : List Move) : P (t.run supervise moves) := by
  induction moves generalizing t with
  | nil => exact holds
  | cons move moves ih => exact ih (sound.act supervise move) (keeps t sound holds move)

theorem Orderly.run {moves : List Move} (sound : t.Sound) (orderly : t.Orderly)
    (punctual : t.Punctual supervise moves) : (t.run supervise moves).Orderly := by
  induction moves generalizing t with
  | nil => exact orderly
  | cons move moves ih =>
    obtain ⟨inTime, later⟩ := punctual
    exact ih (sound.act supervise move) (orderly.act supervise sound inTime) later

end

theorem bootAll_fresh {config : NetworkConfig} {address : Nat} {machines : List Machine} {nodes : List Node}
    (booted : Network.bootAll config address machines = .ok nodes) :
    ∀ node ∈ nodes, node.forwarder = .testing ∧ node.worker.due = 0 := by
  induction machines generalizing address nodes with
  | nil =>
    cases booted
    exact List.forall_mem_nil _
  | cons m machines ih =>
    obtain ⟨node, first, booted⟩ := Strand.ok_of_bind booted
    obtain ⟨rest, others, booted⟩ := Strand.ok_of_bind booted
    cases booted
    intro node' member
    rcases List.mem_cons.mp member with rfl | later
    · exact Strand.boot_fresh first
    · exact ih others node' later

section
variable {machines : List Machine} {config : NetworkConfig} {net : Network}

/-- A network that has just been set up. -/
structure Fresh (config : NetworkConfig) (net : Network) : Prop where
  config : net.config = config
  bus : net.bus = []
  nodes : ∀ node ∈ net.nodes, node.forwarder = .testing ∧ node.worker.due = 0

theorem spawn_fresh (spawned : Network.spawn machines config = .ok net) : Fresh config net := by
  obtain ⟨nodes, booted, rfl⟩ : ∃ nodes, Network.bootAll config 0 machines = .ok nodes ∧
      net = ⟨config, nodes, [], false, #[.networkUp nodes.length]⟩ := by
    obtain ⟨nodes, booted, spawned⟩ := Strand.ok_of_bind spawned
    exact ⟨nodes, booted, (Except.ok.inj spawned).symm⟩
  exact ⟨rfl, rfl, bootAll_fresh booted⟩

theorem Fresh.strand (fresh : Fresh config net) {memory : σ} {i : Nat} {s : Strand}
    (present : (opened net memory).strand? i = some s) :
    ∃ node, s = Strand.opened node ∧ node.forwarder = .testing ∧ node.worker.due = 0 := by
  obtain ⟨node, here, rfl⟩ := Option.map_eq_some_iff.mp present
  have here : net.nodes[i]? = some node := here
  refine ⟨node, ?_, fresh.nodes node (List.mem_of_getElem? here)⟩
  simp [opened, Strand.opened, sentBy, Network.output, here]

theorem Fresh.sound (fresh : Fresh config net) (memory : σ) : (opened net memory).Sound where
  phase := trivial
  strands i s present := by
    obtain ⟨node, rfl, forwarder, due⟩ := fresh.strand present
    exact Strand.sound_opened forwarder due

theorem Fresh.orderly (fresh : Fresh config net) (memory : σ) : (opened net memory).Orderly := by
  intro i s present
  obtain ⟨node, rfl, forwarder, -⟩ := fresh.strand present
  exact Strand.orderly_opened forwarder

theorem Fresh.closed (fresh : Fresh config net) (memory : σ) : (opened net memory).Closed := by
  intro _ i s present
  obtain ⟨node, rfl, forwarder, -⟩ := fresh.strand present
  exact Strand.closed_opened forwarder

theorem accounted_opened (net : Network) (memory : σ) : (opened net memory).Accounted [] :=
  ⟨rfl, fun _ => rfl, rfl, rfl, List.forall_mem_nil _⟩

theorem Fresh.conveyed (fresh : Fresh config net) (memory : σ) : (opened net memory).Conveyed := fresh.bus.symm

/-- Whatever the order in which workers, forwarders and the router act, and whichever nodes are halted, as long as
    no wait for a payload runs out: the packets of a node on the bus are the first groups of its stream, in order,
    and all of them once the machine has ended and the forwarder has stopped without a shutdown. The router takes
    them in the order of the bus, and delivers or refuses each of them once. Apart from them it feeds the nodes
    what its supervisor has it send or broadcast, and each of these once. -/
theorem conserved (spawned : Network.spawn machines config = .ok net) (memory : σ) (moves : List Move)
    (punctual : (opened net memory).Punctual supervise moves) (ran : (opened net memory).run supervise moves = t) :
    (∀ i node, t.network.nodes[i]? = some node →
      t.sentBy i <+: Packet.groups config.packetSize (t.written i) ∧
      ∀ earlier, earlier <+: moves → ((opened net memory).run supervise earlier).Retired i →
        node.channel.state = .ended → t.sentBy i = Packet.groups config.packetSize (t.written i)) ∧
    t.posted.map Prod.snd = t.taken ++ t.network.bus ∧
    ∃ errands, t.Accounted errands ∧ ∀ earlier, earlier <+: moves →
      ∃ done, done <+: errands ∧ ((opened net memory).run supervise earlier).Accounted done := by
  have fresh := spawn_fresh spawned
  have sound := fresh.sound memory
  have atStart : (opened net memory).network.config = config := fresh.config
  subst ran
  have orderly := (fresh.orderly memory).run sound punctual
  have same : ((opened net memory).run supervise moves).network.config = config :=
    run_keeps (fun t sound before move => (act_config supervise sound.phase move).trans before) sound atStart moves
  refine ⟨fun i node present => ?_, ?_, ?_⟩
  · have strand := strand?_of_node present
    have kept := orderly i _ strand
    rw [same] at kept
    refine ⟨kept.prefix_groups, ?_⟩
    rintro earlier ⟨later, rfl⟩ retired ended
    have closed : ((opened net memory).run supervise earlier).Closed :=
      run_keeps (fun _ => Closed.act supervise) sound (fresh.closed memory) earlier
    have sound' : ((opened net memory).run supervise earlier).Sound :=
      run_keeps (fun _ _ sound move => sound.act supervise move) sound sound earlier
    -- the forwarder came to its end before any shutdown, and stays there
    have atEnd : ((opened net memory).run supervise (earlier ++ later)).AtEnd i := by
      rw [run_append]
      exact run_keeps (P := fun t => t.AtEnd i) (fun _ => AtEnd.act supervise) sound' (closed.atEnd retired) later
    obtain ⟨s, strand', stopped, closed⟩ := atEnd
    obtain rfl := Option.some.inj (strand'.symm.trans strand)
    exact kept.eq_groups closed ended stopped
  · exact run_keeps (fun _ => Conveyed.act supervise) sound (fresh.conveyed memory) moves
  · obtain ⟨errands, -, accounted, along⟩ := accounted_along supervise sound (accounted_opened net memory) moves
    exact ⟨errands, accounted, along⟩

end

/-- The clock of a forwarder may run out with the move. -/
def Move.isLate : Move → Bool
  | .forward _ late => late
  | .work .. | .route _ | .post | .halt _ | .shutDown => false

theorem punctual_of_prompt {moves : List Move} (prompt : ∀ move ∈ moves, move.isLate = false) :
    t.Punctual supervise moves := by
  induction moves generalizing t with
  | nil => trivial
  | cons move moves ih =>
    refine ⟨?_, ih fun move member => prompt move (List.mem_cons_of_mem _ member)⟩
    cases move with
    | forward index late =>
      intro lated
      exact absurd lated (Bool.eq_false_iff.mp (prompt _ List.mem_cons_self))
    | work | route | post | halt | shutDown => trivial

/-- A node that writes two packets, and one that reads a word. -/
def pair : List Machine :=
  [.ofProgram [104, 1, 104, 7, 104, 5, 104, 8, 99] {}, .ofProgram [3, 10, 99] {}]

/-- Both nodes act until they are done. The router delivers the first packet and then looks for the node that the
    other one is addressed to. -/
def pairMoves : List Move :=
  List.replicate 19 (.work 0 false) ++ List.replicate 4 (.work 1 false) ++ List.replicate 13 (.forward 0 false) ++
    List.replicate 2 (.route false) ++ [.post] ++ List.replicate 4 (.work 1 false) ++ List.replicate 5 (.route false)

theorem conserved_pair : ∃ net t, Network.spawn pair { packetSize := 1, bootWithAddress := false } = .ok net ∧
    (opened net ()).run (fun _ _ => (.stop, ())) pairMoves = t ∧
    t.taken = [⟨1, [7]⟩, ⟨5, [8]⟩] ∧ t.fed 1 = [7] ∧ t.notices = [.unroutable ⟨5, [8]⟩] ∧
    t.sentBy 0 = Packet.groups 1 (t.written 0) ∧ t.posted.map Prod.snd = t.taken ++ t.network.bus ∧
    ∃ errands, t.Accounted errands := by
  refine ⟨_, _, rfl, rfl, by decide +kernel, by decide +kernel, by decide +kernel, ?_⟩
  have spawned : Network.spawn pair { packetSize := 1, bootWithAddress := false } = .ok _ := rfl
  have prompt : ∀ move ∈ pairMoves, move.isLate = false := by decide
  obtain ⟨strands, conveyed, accounted⟩ :=
    conserved (fun _ _ => (.stop, ())) spawned () pairMoves (punctual_of_prompt _ prompt) rfl
  obtain ⟨errands, accounted, -⟩ := accounted
  exact ⟨(strands 0 _ rfl).2 _ List.prefix_rfl ⟨rfl, _, rfl, rfl⟩ rfl, conveyed, errands, accounted⟩

end Traffic

end IntegerMachine
