import IntegerMachine.Proofs.Traffic
import Mathlib.Data.List.Forall2

/-!
# Receipts

What the input instructions of a node receive, one after the other (`Traffic.receipts`): words that have been queued,
and idle words taken in place of a missing one. The router feeds a payload word by word, and the node may read at any
time in between. The queued words come in the order in which they were fed, none missing (`Traffic.queued_receipts`).
An idle word is received only when all words fed so far have been read. So it stands within a payload only if the
router was amid feeding the node when it was received (`Traffic.idle_amid_feeding`).
-/
namespace IntegerMachine

/-- What an input instruction receives. -/
inductive Receipt where
  /-- The oldest word of the queue. -/
  | queued (word : Word)
  /-- The word that stands in while the queue is empty. -/
  | idle (word : Word)
  deriving DecidableEq

/-- The word, if it comes from the queue. -/
def Receipt.queued? : Receipt → Option Word
  | .queued word => some word
  | .idle _ => none

/-- The words among the receipts that come from the queue. -/
def Receipt.words (receipts : List Receipt) : List Word := receipts.filterMap queued?

/-! ## Workers -/

namespace Worker

/-- The word that the worker is about to store. -/
def holding? (w : Worker) : Option Word :=
  match w.phase with
  | .storing _ _ word => some word
  | _ => none

/-- What the worker receives with its next action. -/
def receipt? (late : Bool) (w : Worker) : Option Receipt :=
  (w.step late).holding?.map fun word =>
    if (w.step late).channel.input.length < w.channel.input.length then .queued word else .idle word

/-- What an action of a worker does to its input. -/
inductive Draws (w w' : Worker) : Option Receipt → Prop
  | nothing (empty : w'.holding? = none) (input : w'.channel.input = w.channel.input) : Draws w w' none
  | queued {word : Word} (holds : w'.holding? = some word) (input : w.channel.input = word :: w'.channel.input) :
      Draws w w' (some (.queued word))
  | idle {word : Word} (holds : w'.holding? = some word) (input : w'.channel.input = w.channel.input)
      (empty : w.channel.input = []) (default : w.machine.config.defaultInput = some word) :
      Draws w w' (some (.idle word))

theorem Draws.eq_receipt? {w : Worker} {late : Bool} {receipt : Option Receipt}
    (draws : Draws w (w.step late) receipt) : w.receipt? late = receipt := by
  unfold receipt?
  cases draws with
  | nothing empty input =>
    rw [empty]
    rfl
  | queued holds input =>
    rw [holds, input]
    simp
  | idle holds input empty default =>
    rw [holds, input]
    simp

theorem holding?_settle (m : Machine) (p : Pending) (events : Array Event) : (settle m p events).holding? = none := by
  unfold settle
  cases p.effect <;> rfl

theorem holding?_strike (m : Machine) (failure : Failure) (events : Array Event) :
    (strike m failure events).holding? = none := by
  unfold strike
  split <;> rfl

theorem read_draws (m : Machine) (p : Pending) (dest : Argument) (events : Array Event) :
    ∃ receipt, Draws ⟨m, .reading p dest, events⟩ (read m p dest events) receipt := by
  unfold read
  cases popped : m.channel.pop? .input with
  | some front =>
    obtain ⟨word, channel⟩ := front
    exact ⟨_, .queued rfl (Channel.pop?_input_eq_some popped).1⟩
  | none =>
    have empty := Channel.pop?_input_eq_none.mp popped
    cases default : m.config.defaultInput with
    | some word => exact ⟨_, .idle rfl rfl empty default⟩
    | none => exact ⟨_, .nothing rfl rfl⟩

theorem await_draws (late : Bool) (m : Machine) (p : Pending) (dest : Argument) (wait : Wait) (events : Array Event) :
    ∃ receipt, Draws ⟨m, .waiting p dest wait, events⟩ (await late m p dest wait events) receipt := by
  unfold await
  cases wait with
  | polling =>
    cases popped : m.channel.pop? .input with
    | some front =>
      obtain ⟨word, channel⟩ := front
      simp only [Wait.step, popped]
      exact ⟨_, .queued rfl (Channel.pop?_input_eq_some popped).1⟩
    | none =>
      simp only [Wait.step, popped]
      exact ⟨_, .nothing rfl rfl⟩
  | checkingState => exact ⟨_, .nothing rfl rfl⟩
  | checkingQueue =>
    simp only [Wait.step]
    by_cases empty : (m.channel.queued .input).isEmpty
    · rw [if_pos empty]
      exact ⟨_, .nothing rfl rfl⟩
    · rw [if_neg empty]
      exact ⟨_, .nothing rfl rfl⟩
  | checkingClock => cases late <;> exact ⟨_, .nothing rfl rfl⟩

theorem step_draws (w : Worker) (late : Bool) : Draws w (w.step late) (w.receipt? late) := by
  obtain ⟨receipt, draws⟩ : ∃ receipt, Draws w (w.step late) receipt := by
    obtain ⟨m, phase, events⟩ := w
    cases phase with
    | resuming =>
      simp only [step]
      split <;> exact ⟨_, .nothing rfl rfl⟩
    | starting =>
      unfold step Machine.start
      rcases m.channel.transition?_cases .initialising .running with ⟨-, moved⟩ | ⟨-, stays⟩
      · simp only [moved]
        exact ⟨_, .nothing rfl rfl⟩
      · simp only [stays]
        exact ⟨_, .nothing rfl rfl⟩
    | reviving =>
      unfold step
      rcases m.channel.transition?_cases .awaitingInput .running with ⟨-, moved⟩ | ⟨-, stays⟩
      · simp only [moved]
        exact ⟨_, .nothing rfl rfl⟩
      · simp only [stays]
        exact ⟨_, .nothing rfl rfl⟩
    | checking =>
      simp only [step]
      split <;> exact ⟨_, .nothing rfl rfl⟩
    | dispatching =>
      unfold step
      rcases dispatched : m.dispatch with ⟨failure | p, m', more⟩
      · obtain ⟨kept, -⟩ := Machine.dispatch_kept dispatched
        simp only [dispatched]
        exact ⟨_, .nothing (holding?_strike m' failure _)
          (congrArg Channel.input ((strike_eq m' failure _).1.trans kept))⟩
      · obtain ⟨kept, -⟩ := Machine.dispatch_kept dispatched
        simp only [dispatched]
        exact ⟨_, .nothing (holding?_settle m' p _) (congrArg Channel.input ((settle_channel m' p _).trans kept))⟩
    | reading p dest => exact read_draws m p dest events
    | waiting p dest wait => exact await_draws late m p dest wait events
    | storing p dest word =>
      simp only [step]
      rcases m.receive_cases p.start p.instruction dest word with ⟨memory, received⟩ | ⟨memory, fault, refused⟩
      · rw [received]
        exact ⟨_, .nothing rfl rfl⟩
      · rw [refused]
        exact ⟨_, .nothing (holding?_strike _ _ _) (congrArg Channel.input (strike_eq _ _ _).1)⟩
    | unanswered p =>
      simp only [step]
      split <;> exact ⟨_, .nothing rfl rfl⟩
    | suspending p =>
      simp only [step]
      rcases m.suspend_cases p.start #[] with ⟨-, more, suspended⟩ | ⟨-, suspended⟩ <;>
      · rw [suspended]
        exact ⟨_, .nothing rfl rfl⟩
    | ending start =>
      simp only [step]
      rcases m.finish_cases start #[] with ⟨-, more, finished⟩ | ⟨-, finished⟩ <;>
      · rw [finished]
        exact ⟨_, .nothing rfl rfl⟩
    | halting failure =>
      simp only [step]
      cases rest : m.state.isTerminal with
      | true =>
        rw [Machine.halted_of_terminal rest]
        exact ⟨_, .nothing rfl rfl⟩
      | false =>
        rw [Machine.halted_of_live rest]
        exact ⟨_, .nothing rfl rfl⟩
    | recovering failure =>
      simp only [step]
      split
      · exact ⟨_, .nothing rfl rfl⟩
      · split <;> exact ⟨_, .nothing rfl rfl⟩
    | emitting | returning | finished | failed | collapsed => exact ⟨_, .nothing rfl rfl⟩
  rw [draws.eq_receipt?]
  exact draws

end Worker

/-! ## Nodes -/

/-- What a move of a strand makes its node receive. -/
def Node.receipt? (node : Node) : Strand.Move → Option Receipt
  | .work late => node.worker.receipt? late
  | .forward .. | .feed _ | .halt => none

/-- What is fed goes behind what is queued, and what is received comes off the front. -/
theorem Strand.act_flow {size : Nat} {s : Strand} (sound : s.Sound size) (move : Move) :
    s.node.channel.input ++ move.words =
      Receipt.words (s.node.receipt? move).toList ++ (s.act size move).node.channel.input := by
  cases move with
  | work late =>
    have draws := s.node.worker.step_draws late
    change s.node.worker.channel.input ++ [] =
      Receipt.words (s.node.worker.receipt? late).toList ++ (s.node.worker.step late).channel.input
    rw [List.append_nil]
    cases received : s.node.worker.receipt? late with
    | none =>
      rw [received] at draws
      cases draws with
      | nothing empty input => exact input.symm
    | some receipt =>
      rw [received] at draws
      cases draws with
      | queued holds input => exact input
      | idle holds input empty default => exact input.symm
  | forward shutdown late =>
    obtain ⟨f, c, sent, events, stepped, does, -⟩ := s.node.forwarder.step_does sound.forwarder shutdown late
    have input : (s.act size (.forward shutdown late)).node.channel.input = c.input := by
      simp only [act, Node.moved, stepped]
      rfl
    rw [input, does.input]
    exact List.append_nil _
  | feed words => rfl
  | halt =>
    refine (List.append_nil _).trans ?_
    rcases s.node.worker.halt_cases with ⟨-, same⟩ | ⟨-, halted⟩
    · simp only [act, Node.moved, same]
      rfl
    · simp only [act, Node.moved, halted]
      rfl

/-! ## Networks -/

namespace Traffic
variable {σ : Type}

/-- What a move makes the node with this index receive. -/
def receipt? (t : Traffic σ) (i : Nat) : Move → Option Receipt
  | .work index late => if index = i then t.network.nodes[i]?.bind fun node => node.worker.receipt? late else none
  | .forward .. | .route _ | .post | .halt _ | .shutDown => none

/-- What the input instructions of a node receive in the course of a run. -/
def receipts (supervise : Supervisor σ) (i : Nat) : Traffic σ → List Move → List Receipt
  | _, [] => []
  | t, move :: moves => (t.receipt? i move).toList ++ receipts supervise i (t.act supervise move) moves

variable (supervise : Supervisor σ) {t : Traffic σ} {i : Nat}

theorem receipt?_of_node {node : Node} (present : t.network.nodes[i]? = some node) (move : Move) :
    t.receipt? i move = node.receipt? (t.onNode supervise i move) := by
  cases move with
  | work index late =>
    simp only [receipt?, onNode, present]
    by_cases here : index = i
    · rw [if_pos here, if_pos here]
      rfl
    · rw [if_neg here, if_neg here]
      rfl
  | forward index late | halt index =>
    simp only [onNode]
    split <;> rfl
  | route | post | shutDown => rfl

theorem receipt?_of_absent (absent : t.network.nodes[i]? = none) (move : Move) : t.receipt? i move = none := by
  cases move with
  | work index late =>
    simp only [receipt?, absent]
    split <;> rfl
  | forward | route | post | halt | shutDown => rfl

theorem act_flow (sound : t.Sound) (i : Nat) (move : Move) :
    ∃ words, (t.act supervise move).fed i = t.fed i ++ words ∧
      t.network.input i ++ words =
        Receipt.words (t.receipt? i move).toList ++ (t.act supervise move).network.input i := by
  have nodes := act_nodes supervise sound.phase move i
  have fed : (t.act supervise move).fed i =
      t.fed i ++ ((t.act supervise move).network.input i).drop (t.network.input i).length := rfl
  cases present : t.network.nodes[i]? with
  | none =>
    have before : t.network.input i = [] := by simp [Network.input, present]
    have after : (t.act supervise move).network.input i = [] := by simp [Network.input, nodes, present]
    refine ⟨[], ?_, ?_⟩
    · rw [fed, after, List.drop_nil]
    · rw [receipt?_of_absent present, before, after]
      rfl
  | some node =>
    have strand := strand?_of_node present
    have sound' := sound.strands i _ strand
    have before : t.network.input i = node.channel.input := by simp [Network.input, present]
    have after : (t.act supervise move).network.input i =
        (node.moved t.network.config.packetSize (t.onNode supervise i move)).channel.input := by
      simp [Network.input, nodes, present]
    refine ⟨(t.onNode supervise i move).words, ?_, ?_⟩
    · rw [fed, before, after, ← Strand.act_input sound']
      rfl
    · rw [receipt?_of_node supervise present, before, after]
      exact Strand.act_flow sound' (t.onNode supervise i move)

theorem words_append (receipts more : List Receipt) :
    Receipt.words (receipts ++ more) = Receipt.words receipts ++ Receipt.words more := List.filterMap_append

/-- A node receives the words that are queued for it and those that it is fed, in this order and each of them once. -/
theorem queued_receipts (sound : t.Sound) (i : Nat) (moves : List Move) :
    ∃ words, (t.run supervise moves).fed i = t.fed i ++ words ∧
      t.network.input i ++ words =
        Receipt.words (receipts supervise i t moves) ++ (t.run supervise moves).network.input i := by
  induction moves generalizing t with
  | nil => exact ⟨[], (List.append_nil _).symm, List.append_nil _⟩
  | cons move moves ih =>
    obtain ⟨words, fed, flow⟩ := act_flow supervise sound i move
    obtain ⟨more, fed', flow'⟩ := ih (sound.act supervise move)
    refine ⟨words ++ more, ?_, ?_⟩
    · rw [← List.append_assoc, ← fed]
      exact fed'
    · rw [receipts, words_append, List.append_assoc, ← List.append_assoc, flow, List.append_assoc, flow']
      rfl

/-- In the course of a run the node comes to receive this, next after these receipts, and this is the network in
    which it does. -/
def ReceivesIn (i : Nat) (t : Traffic σ) (moves : List Move) (before : List Receipt) (receipt : Receipt)
    (u : Traffic σ) : Prop :=
  ∃ earlier move, earlier ++ [move] <+: moves ∧ t.run supervise earlier = u ∧
    receipts supervise i t earlier = before ∧ u.receipt? i move = some receipt

/-- Each receipt belongs to a move of the run. -/
theorem receipts_split {before after : List Receipt} {receipt : Receipt} {moves : List Move}
    (split : receipts supervise i t moves = before ++ receipt :: after) :
    ∃ u, ReceivesIn supervise i t moves before receipt u := by
  induction moves generalizing t before with
  | nil =>
    have nothing : [] = before ++ receipt :: after := split
    simp at nothing
  | cons move moves ih =>
    simp only [receipts] at split
    cases received : t.receipt? i move with
    | none =>
      rw [received] at split
      obtain ⟨u, earlier, last, ⟨later, rfl⟩, reached, same, holds⟩ := ih split
      refine ⟨u, move :: earlier, last, ⟨later, rfl⟩, reached, ?_, holds⟩
      rw [receipts, received, same]
      rfl
    | some first =>
      rw [received] at split
      cases before with
      | nil =>
        obtain ⟨rfl, -⟩ := List.cons.inj split
        exact ⟨t, [], move, ⟨moves, rfl⟩, rfl, rfl, received⟩
      | cons other before =>
        obtain ⟨rfl, rest⟩ := List.cons.inj split
        obtain ⟨u, earlier, last, ⟨later, rfl⟩, reached, same, holds⟩ := ih rest
        refine ⟨u, move :: earlier, last, ⟨later, rfl⟩, reached, ?_, holds⟩
        rw [receipts, received, same]
        rfl

/-- A node that receives an idle word has nothing queued. -/
theorem receipt?_idle {move : Move} {word : Word} (received : t.receipt? i move = some (.idle word)) :
    t.network.input i = [] ∧
      ∃ node, t.network.nodes[i]? = some node ∧ node.worker.machine.config.defaultInput = some word := by
  cases present : t.network.nodes[i]? with
  | none =>
    rw [receipt?_of_absent present] at received
    cases received
  | some node =>
    cases move with
    | work index late =>
      simp only [receipt?, present] at received
      split at received
      · have received : node.worker.receipt? late = some (.idle word) := received
        have draws := node.worker.step_draws late
        rw [received] at draws
        cases draws with
        | idle holds input empty default =>
          refine ⟨?_, node, rfl, default⟩
          simpa [Network.input, present, Node.channel] using empty
      · cases received
    | forward | route | post | halt | shutDown => cases received

/-! ## Payloads -/

theorem feeds_length_le {done errands : List Errand} (first : done <+: errands) :
    (done.flatMap (Errand.feeds i)).length ≤ (errands.flatMap (Errand.feeds i)).length := by
  obtain ⟨rest, rfl⟩ := first
  rw [List.flatMap_append, List.length_append]
  exact Nat.le_add_right _ _

/-- As many words have been fed for whole errands as lie strictly within the words of one: there are none. -/
theorem feeds_not_within {errands done before after : List Errand} {errand : Errand} (first : done <+: errands)
    (split : errands = before ++ errand :: after)
    (above : (before.flatMap (Errand.feeds i)).length < (done.flatMap (Errand.feeds i)).length)
    (below : (done.flatMap (Errand.feeds i)).length < ((before ++ [errand]).flatMap (Errand.feeds i)).length) :
    False := by
  have other : before ++ [errand] <+: errands := ⟨after, by rw [split, List.append_assoc]; rfl⟩
  rcases List.prefix_or_prefix_of_prefix first other with within | beyond
  · rcases List.prefix_concat_iff.mp within with rfl | within
    · exact Nat.lt_irrefl _ below
    · exact Nat.lt_irrefl _ (Nat.lt_of_lt_of_le above (feeds_length_le within))
  · exact Nat.lt_irrefl _ (Nat.lt_of_lt_of_le below (feeds_length_le beyond))

/-- As long as the supervisor has not been consulted, all that the router has done is to deliver the packets that it
    has taken from the bus. -/
theorem Accounted.deliveries {errands : List Errand} (accounted : t.Accounted errands)
    (unasked : t.router.supervisor.2 = []) (phase : t.router.phase = .receiving) :
    List.Forall₂ (fun errand packet => ∃ index, errand = .delivery packet .bus index ∧
      t.network.Addressed packet.destination index) errands t.taken := by
  obtain ⟨taken, -, told, obeyed, lawful⟩ := accounted
  have silent : errands.flatMap Errand.notices = [] := by rw [told, notices, unasked, phase]; rfl
  have free : errands.flatMap Errand.discharged = [] := by
    have nothing : t.duties = [] := by rw [duties, unasked]; rfl
    exact (List.append_eq_nil_iff.mp (obeyed.symm.trans nothing)).1
  rw [taken, phase]
  clear taken told obeyed
  induction errands with
  | nil => exact .nil
  | cons errand errands ih =>
    obtain ⟨silent, quiet⟩ := List.append_eq_nil_iff.mp silent
    obtain ⟨free, idle⟩ := List.append_eq_nil_iff.mp free
    have later := ih (fun errand member => lawful errand (List.mem_cons_of_mem _ member)) quiet idle
    cases errand with
    | delivery packet origin index =>
      cases origin with
      | bus => exact .cons ⟨index, rfl, lawful _ List.mem_cons_self⟩ later
      | supervisor => cases free
    | stray packet origin | refusal packet origin =>
      cases origin with
      | bus => cases silent
      | supervisor => cases free
    | spread => cases free
    | idle => cases silent

variable {machines : List Machine} {config : NetworkConfig} {net : Network}

/-- A node receives the words that it is fed in their order and each once. An idle word in between is its default
    input, received when everything fed so far had been read. If it stands between two words of the same payload, be it
    one that has been fed whole or the one under way in the end, the router was amid feeding the node then. -/
theorem idle_amid_feeding (spawned : Network.spawn machines config = .ok net) (memory : σ) (moves : List Move)
    (i : Nat) (ran : (opened net memory).run supervise moves = t) :
    net.input i ++ t.fed i =
      Receipt.words (receipts supervise i (opened net memory) moves) ++ t.network.input i ∧
    ∃ errands, t.Accounted errands ∧
      (∀ earlier, earlier <+: moves →
        ∃ done, done <+: errands ∧ ((opened net memory).run supervise earlier).Accounted done) ∧
      ∀ before word after, receipts supervise i (opened net memory) moves = before ++ .idle word :: after →
        ∃ u node, ReceivesIn supervise i (opened net memory) moves before (.idle word) u ∧
          u.network.nodes[i]? = some node ∧ node.worker.machine.config.defaultInput = some word ∧
          u.network.input i = [] ∧ Receipt.words before = net.input i ++ u.fed i ∧
          (∀ done errand rest, errands = done ++ errand :: rest →
            (net.input i ++ done.flatMap (Errand.feeds i)).length < (Receipt.words before).length →
            (Receipt.words before).length < (net.input i ++ (done ++ [errand]).flatMap (Errand.feeds i)).length →
            u.router.phase.fed i ≠ []) ∧
          ((net.input i ++ errands.flatMap (Errand.feeds i)).length < (Receipt.words before).length →
            u.router.phase.fed i ≠ []) := by
  have sound := (spawn_fresh spawned).sound memory
  have flow (moves : List Move) : net.input i ++ ((opened net memory).run supervise moves).fed i =
      Receipt.words (receipts supervise i (opened net memory) moves) ++
        ((opened net memory).run supervise moves).network.input i := by
    obtain ⟨words, fed, flow⟩ := queued_receipts supervise sound i moves
    rw [fed]
    exact flow
  obtain ⟨errands, -, accounted, along⟩ := accounted_along supervise sound (accounted_opened net memory) moves
  subst ran
  refine ⟨flow moves, errands, accounted, along, fun before word after split => ?_⟩
  obtain ⟨u, received⟩ := receipts_split supervise split
  obtain ⟨earlier, move, part, rfl, rfl, idle⟩ := id received
  obtain ⟨empty, node, present, default⟩ := receipt?_idle idle
  have read := flow earlier
  rw [empty, List.append_nil] at read
  obtain ⟨sofar, first, reached⟩ := along earlier ((List.prefix_append earlier [move]).trans part)
  have fed := reached.fed i
  -- with nothing fed for an errand under way, all that has been read belongs to the errands done by then
  have whole (nothing : ((opened net memory).run supervise earlier).router.phase.fed i = []) :
      (Receipt.words (receipts supervise i (opened net memory) earlier)).length =
        (net.input i).length + (sofar.flatMap (Errand.feeds i)).length := by
    rw [← read, fed, nothing, List.append_nil, List.length_append]
  refine ⟨_, node, received, present, default, empty, read.symm, fun done errand rest same above below nothing => ?_,
    fun above nothing => ?_⟩
  · rw [whole nothing, List.length_append] at above below
    exact feeds_not_within (i := i) first same (by omega) (by omega)
  · rw [whole nothing, List.length_append] at above
    have fewer := feeds_length_le (i := i) first
    omega

/-- A node that reads three words, and receives idle words meanwhile. -/
def reader : Machine := .ofProgram [3, 10, 3, 11, 3, 12, 99] {}

/-- A node that writes a packet of two words, and the node that it is for. -/
def courier : List Machine := [.ofProgram [104, 1, 104, 7, 104, 8, 99] {}, reader]

/-- The packet is sent on. The receiver reads twice after the router has fed it the first word, and once more after
    the second one. -/
def courierMoves : List Move :=
  List.replicate 11 (.work 0 false) ++ List.replicate 5 (.forward 0 false) ++ List.replicate 3 (.route false) ++
    List.replicate 10 (.work 1 false) ++ List.replicate 2 (.route false) ++ List.replicate 3 (.work 1 false)

theorem idle_amid_feeding_courier :
    ∃ net t, Network.spawn courier { bootWithAddress := false } = .ok net ∧
      (opened net ()).run (fun _ _ => (.stop, ())) courierMoves = t ∧ t.taken = [⟨1, [7, 8]⟩] ∧
      receipts (fun _ _ => (.stop, ())) 1 (opened net ()) courierMoves = [.queued 7] ++ .idle (-1) :: [.queued 8] ∧
      ∃ u, ReceivesIn (fun _ _ => (.stop, ())) 1 (opened net ()) courierMoves [.queued 7] (.idle (-1)) u ∧
        u.network.input 1 = [] ∧ u.fed 1 = [7] ∧ u.router.phase.fed 1 ≠ [] := by
  obtain ⟨net, t, spawned, ran, taken, received, unasked, phase, unfed⟩ :
      ∃ net t, Network.spawn courier { bootWithAddress := false } = .ok net ∧
        (opened net ()).run (fun _ _ => (.stop, ())) courierMoves = t ∧ t.taken = [⟨1, [7, 8]⟩] ∧
        receipts (fun _ _ => (.stop, ())) 1 (opened net ()) courierMoves = [.queued 7, .idle (-1), .queued 8] ∧
        t.router.supervisor.2 = [] ∧ t.router.phase = .receiving ∧ net.input 1 = [] :=
    ⟨_, _, rfl, rfl, by decide +kernel, by decide +kernel, by decide +kernel, by decide +kernel, by decide +kernel⟩
  obtain ⟨-, errands, accounted, -, amid⟩ := idle_amid_feeding (fun _ _ => (.stop, ())) spawned () courierMoves 1 ran
  obtain ⟨u, -, moment, -, -, empty, read, within, -⟩ := amid [.queued 7] (-1) [.queued 8] received
  have fed : [7] = net.input 1 ++ u.fed 1 := read
  rw [unfed] at fed within
  -- the packet comes from the bus, so that its two words are those of one errand
  have delivered := accounted.deliveries unasked phase
  rw [taken] at delivered
  obtain ⟨errand, others, ⟨index, rfl, address, -⟩, none, rfl⟩ := List.forall₂_cons_right_iff.mp delivered
  obtain rfl := List.forall₂_nil_right_iff.mp none
  obtain rfl : index = 1 := Int.ofNat_inj.mp address.symm
  exact ⟨net, t, spawned, ran, taken, received, u, moment, empty, fed.symm, within [] _ [] rfl (by decide) (by decide)⟩

/-- A supervisor that has two words sent to the node whenever the network is idle. -/
def sending : Supervisor Unit := fun _ _ => (.send ⟨0, [7, 8]⟩, ())

/-- The node reads twice after the router has fed it the first word, and once more after the second one. -/
def readerMoves : List Move :=
  .route true :: List.replicate 6 (.route false) ++ List.replicate 10 (.work 0 false) ++
    List.replicate 2 (.route false) ++ List.replicate 3 (.work 0 false)

/-- The router delivers one payload. Between its two words the node receives an idle word. -/
theorem idle_within_payload :
    ∃ net t, Network.spawn [reader] { bootWithAddress := false } = .ok net ∧
      (opened net ()).run sending readerMoves = t ∧ t.fed 0 = [7, 8] ∧ t.router.stats.delivered = 1 ∧
      receipts sending 0 (opened net ()) readerMoves = [.queued 7, .idle (-1), .queued 8] :=
  ⟨_, _, rfl, rfl, by decide +kernel, by decide +kernel, by decide +kernel⟩

end Traffic

end IntegerMachine
