import IntegerMachine.Network
import IntegerMachine.Proofs.Cycle

/-!
# Strands

A strand is a node of a network with its worker and its forwarder, apart from all other nodes. It keeps the stream
of words that the node has written, and the packets that the forwarder has made of it. A worker only adds to the
output, and hardly ever once its machine is at rest (`Worker.step_passes`). All that a forwarder can do at a time
is listed by `Forwarder.Does`. Together they say what a move does to a strand (`Strand.act_cases`).
-/
namespace IntegerMachine

/-! ## What a worker does to its output -/

theorem Channel.transition?_cases (c : Channel) (source target : RunState) :
    (c.state = source ∧ c.transition? source target = some { c with state := target }) ∨
    c.state ≠ source ∧ c.transition? source target = none := by
  unfold transition?
  by_cases same : c.state = source
  · exact .inl ⟨same, if_pos same⟩
  · exact .inr ⟨same, if_neg same⟩

theorem Channel.pop?_input_shrinks {c c' : Channel} {word : Word} (popped : c.pop? .input = some (word, c')) :
    c'.input.length ≤ c.input.length ∧ c' = { c with input := c'.input } := by
  obtain ⟨front, rest⟩ := pop?_input_eq_some popped
  refine ⟨?_, rest⟩
  rw [front]
  exact Nat.le_succ _

theorem Wait.step_input (wait : Wait) (late : Bool) (c : Channel) :
    ∃ input : List Word, input.length ≤ c.input.length ∧ (wait.step .input late c).2 = { c with input } := by
  cases wait with
  | polling =>
    unfold step
    cases popped : c.pop? .input with
    | none => exact ⟨c.input, Nat.le_refl _, rfl⟩
    | some front => exact ⟨front.2.input, Channel.pop?_input_shrinks popped⟩
  | checkingState => exact ⟨c.input, Nat.le_refl _, rfl⟩
  | checkingQueue | checkingClock =>
    simp only [step]
    split <;> exact ⟨c.input, Nat.le_refl _, rfl⟩

namespace Worker

/-- The number of words that a worker may still write once its machine is at rest. -/
def due (w : Worker) : Nat :=
  match w.phase with
  | .dispatching | .emitting _ => 1
  | _ => 0

/-- What an action of a worker does to its channel. -/
structure Passes (w w' : Worker) : Prop where
  written : ∃ words : List Word, w'.channel.output = w.channel.output ++ words.toArray ∧
    (w.channel.state.isTerminal → words.length + w'.due ≤ w.due)
  input : w'.channel.input.length ≤ w.channel.input.length
  rests : w.channel.state.isTerminal → w'.channel.state = w.channel.state
  ended : w'.channel.state = .ended → w.channel.state ≠ .ended → w'.due = 0

namespace Passes
variable {w w' : Worker}

theorem idle (output : w'.channel.output = w.channel.output)
    (input : w'.channel.input.length ≤ w.channel.input.length)
    (rests : w.channel.state.isTerminal → w'.channel.state = w.channel.state) (due : w'.due = 0) : Passes w w' where
  written := ⟨[], by rw [output]; simp, fun _ => by simp [due]⟩
  input := input
  rests := rests
  ended _ _ := due

theorem still (channel : w'.channel = w.channel) (due : w.channel.state.isTerminal → w'.due ≤ w.due) : Passes w w' where
  written := ⟨[], by rw [channel]; simp, fun atRest => by simpa using due atRest⟩
  input := Nat.le_of_eq (by rw [channel])
  rests _ := by rw [channel]
  ended ended started := absurd ((congrArg Channel.state channel).symm.trans ended) started

theorem inner (channel : w'.channel = w.channel) (due : w'.due = 0) : Passes w w' :=
  .still channel fun _ => by rw [due]; exact Nat.zero_le _

end Passes

theorem due_le_one (w : Worker) : w.due ≤ 1 := by
  unfold due
  split <;> omega

theorem due_settle_le (m : Machine) (p : Pending) (events : Array Event) : (settle m p events).due ≤ 1 := by
  unfold settle due
  cases p.effect <;> simp

theorem settle_channel (m : Machine) (p : Pending) (events : Array Event) :
    (settle m p events).channel = m.channel := by
  unfold settle
  cases p.effect <;> rfl

theorem strike_eq (m : Machine) (failure : Failure) (events : Array Event) :
    (strike m failure events).channel = m.channel ∧ (strike m failure events).due = 0 := by
  unfold strike
  split <;> exact ⟨rfl, rfl⟩

theorem step_passes (w : Worker) (late : Bool) : Passes w (w.step late) := by
  obtain ⟨m, phase, events⟩ := w
  cases phase with
  | resuming =>
    simp only [step]
    split <;> exact .inner rfl rfl
  | starting =>
    unfold step Machine.start
    rcases m.channel.transition?_cases .initialising .running with ⟨state, moved⟩ | ⟨-, stays⟩
    · simp only [moved]
      exact .idle rfl (Nat.le_refl _) (fun atRest => absurd state (RunState.started_of_terminal atRest)) rfl
    · simp only [stays]
      exact .inner rfl rfl
  | reviving =>
    unfold step
    rcases m.channel.transition?_cases .awaitingInput .running with ⟨state, moved⟩ | ⟨-, stays⟩
    · simp only [moved]
      exact .idle rfl (Nat.le_refl _) (fun atRest => absurd atRest (by simp [channel, state, RunState.isTerminal])) rfl
    · simp only [stays]
      exact .inner rfl rfl
  | checking =>
    simp only [step]
    by_cases running : m.state = .running
    · rw [if_pos running]
      exact .still rfl fun atRest => absurd running (RunState.stopped_of_terminal atRest)
    · rw [if_neg running]
      exact .inner rfl rfl
  | dispatching =>
    unfold step
    rcases dispatched : m.dispatch with ⟨failure | p, m', more⟩
    · obtain ⟨kept, -⟩ := Machine.dispatch_kept dispatched
      obtain ⟨same, due⟩ := strike_eq m' failure (events ++ more)
      have channel := same.trans kept
      simp only [dispatched]
      exact .inner channel due
    · obtain ⟨kept, -⟩ := Machine.dispatch_kept dispatched
      have channel := (settle_channel m' p (events ++ more)).trans kept
      simp only [dispatched]
      exact .still channel fun _ => due_settle_le m' p _
  | reading p dest =>
    simp only [step, read]
    cases popped : m.channel.pop? .input with
    | none =>
      simp only
      split <;> exact .inner rfl rfl
    | some front =>
      obtain ⟨word, channel⟩ := front
      obtain ⟨fewer, taken⟩ := Channel.pop?_input_shrinks popped
      simp only
      rw [taken]
      exact .idle rfl fewer (fun _ => rfl) rfl
  | waiting p dest wait =>
    simp only [step, await]
    obtain ⟨input, fewer, left⟩ := wait.step_input late m.channel
    rcases waited : wait.step .input late m.channel with ⟨wait | word | _ | _, channel⟩ <;>
    · rw [waited] at left
      obtain rfl : channel = { m.channel with input } := left
      exact .idle rfl fewer (fun _ => rfl) rfl
  | storing p dest word =>
    simp only [step]
    rcases m.receive_cases p.start p.instruction dest word with ⟨memory, received⟩ | ⟨memory, fault, refused⟩
    · rw [received]
      exact .inner rfl rfl
    · rw [refused]
      obtain ⟨same, due⟩ := strike_eq { m with memory } (.faulted m.name p.start p.instruction.text fault) events
      exact .inner same due
  | unanswered p =>
    simp only [step]
    split <;> exact .inner rfl rfl
  | suspending p =>
    simp only [step]
    rcases m.suspend_cases p.start #[] with ⟨running, more, suspended⟩ | ⟨-, suspended⟩
    · rw [suspended]
      exact .idle rfl (Nat.le_refl _) (fun atRest => absurd running (RunState.stopped_of_terminal atRest)) rfl
    · rw [suspended]
      exact .inner rfl rfl
  | emitting word =>
    refine ⟨⟨[word], ?_, fun _ => Nat.le_refl 1⟩, Nat.le_refl _, fun _ => rfl, fun _ _ => rfl⟩
    simp [step, channel, Machine.counted, Machine.emit, Channel.emit]
  | ending start =>
    simp only [step]
    rcases m.finish_cases start #[] with ⟨running, more, finished⟩ | ⟨-, finished⟩
    · rw [finished]
      exact .idle rfl (Nat.le_refl _) (fun atRest => absurd running (RunState.stopped_of_terminal atRest)) rfl
    · rw [finished]
      exact .inner rfl rfl
  | halting failure =>
    simp only [step]
    cases rest : m.state.isTerminal with
    | true =>
      rw [Machine.halted_of_terminal rest]
      exact .inner rfl rfl
    | false =>
      have live : ¬ m.channel.state.isTerminal := by
        rw [show m.channel.state.isTerminal = false from rest]
        exact Bool.false_ne_true
      rw [Machine.halted_of_live rest]
      exact .idle rfl (Nat.le_refl _) (fun atRest => absurd atRest live) rfl
  | recovering failure =>
    simp only [step]
    split
    · exact .inner rfl rfl
    · split <;> exact .inner rfl rfl
  | returning | finished | failed | collapsed => exact .inner rfl rfl

theorem halt_cases (w : Worker) :
    (w.channel.state.isTerminal ∧ w.halt.2 = w) ∨
    (¬ w.channel.state.isTerminal ∧ w.halt.2 = w.withChannel { w.channel with state := .halted }) := by
  cases rest : w.channel.state.isTerminal with
  | true =>
    refine .inl ⟨rfl, ?_⟩
    rw [halt, Channel.halt_of_terminal rest]
    rfl
  | false =>
    refine .inr ⟨nofun, ?_⟩
    rw [halt, Channel.halt_of_live rest]

end Worker

/-! ## What a forwarder does with the output -/

/-- A wait that looks at the queue once more has seen the machine at rest. -/
def Wait.Sees (c : Channel) (wait : Wait) : Prop := wait = .checkingQueue → c.state.isTerminal

theorem Wait.step_output_cases {wait : Wait} {c : Channel} (sees : wait.Sees c) (late : Bool) :
    (∃ wait' : Wait, wait.step .output late c = (.waiting wait', c) ∧ wait'.Sees c) ∨
    (∃ word rest, c.output.toList = word :: rest ∧
      wait.step .output late c = (.received word, { c with output := rest.toArray })) ∨
    (c.state.isTerminal ∧ c.output.toList = [] ∧ wait.step .output late c = (.closed, c)) ∨
    (late = true ∧ wait = .checkingClock ∧ wait.step .output late c = (.expired, c)) := by
  cases wait with
  | polling =>
    unfold step Channel.pop? Channel.queued Channel.withQueued
    cases front : c.output.toList with
    | nil => exact .inl ⟨.checkingState, rfl, by simp [Sees]⟩
    | cons word rest => exact .inr (.inl ⟨word, rest, rfl, rfl⟩)
  | checkingState =>
    refine .inl ⟨_, rfl, ?_⟩
    by_cases atRest : c.state.isTerminal
    · exact fun _ => atRest
    · rw [if_neg atRest]
      simp [Sees]
  | checkingQueue =>
    simp only [step, Channel.queued, List.isEmpty_iff]
    by_cases empty : c.output.toList = []
    · rw [if_pos empty]
      exact .inr (.inr (.inl ⟨sees rfl, empty, rfl⟩))
    · rw [if_neg empty]
      exact .inl ⟨.checkingClock, rfl, by simp [Sees]⟩
  | checkingClock =>
    cases late with
    | false => exact .inl ⟨.polling, rfl, by simp [Sees]⟩
    | true => exact .inr (.inr (.inr ⟨rfl, rfl, rfl⟩))

/-- The words of a packet as they stand in a stream. -/
def Packet.words (packet : Packet) : List Word := packet.destination :: packet.payload

namespace Forwarder

/-- The words that a forwarder has taken and not yet sent on. -/
def held : Forwarder → List Word
  | .collecting destination payload _ => destination :: payload
  | .sending packet => packet.words
  | .testing | .expecting _ | .stopped | .collapsed => []

@[simp] theorem held_collecting (destination : Word) (payload : List Word) (wait : Wait) :
    (collecting destination payload wait).held = destination :: payload := rfl

@[simp] theorem held_sending (packet : Packet) : (sending packet).held = packet.words := rfl

@[simp] theorem held_testing : testing.held = [] := rfl

@[simp] theorem held_stopped : stopped.held = [] := rfl

@[simp] theorem held_collapsed : collapsed.held = [] := rfl

/-- What a forwarder holds is no longer than a packet, and its wait has seen what it goes by. -/
def Sound (size : Nat) (c : Channel) : Forwarder → Prop
  | .expecting wait => wait.Sees c
  | .collecting _ payload wait => payload.length < size ∧ wait.Sees c
  | .sending packet => packet.payload.length = size
  | .testing | .stopped | .collapsed => True

/-- What an action of a forwarder comes to: the forwarder and the channel that it leaves, and what is sent. -/
inductive Does (size : Nat) (shutdown late : Bool) (f : Forwarder) (c : Channel) :
    Forwarder → Channel → Option Packet → Prop
  | turns {f' : Forwarder} (held : f'.held = f.held) (down : f = .collapsed → f' = .collapsed)
      (stops : f' = .stopped → f = .stopped ∨ shutdown = true ∨ c.state.isTerminal ∧ c.output.toList = []) :
      Does size shutdown late f c f' c none
  | takes {f' : Forwarder} {word : Word} {rest : List Word} (front : c.output.toList = word :: rest)
      (held : f'.held = f.held ++ [word]) (going : f ≠ .collapsed) (on : f' ≠ .stopped) :
      Does size shutdown late f c f' { c with output := rest.toArray } none
  | collapses {word : Word} {rest : List Word} (big : Word.capacity < size) (front : c.output.toList = word :: rest)
      (held : f.held = []) : Does size shutdown late f c .collapsed { c with output := rest.toArray } none
  | drops {destination : Word} {payload : List Word} {wait : Wait}
      (collecting : f = .collecting destination payload wait)
      (ends : late = true ∧ wait = .checkingClock ∨ c.state.isTerminal ∧ c.output.toList = []) :
      Does size shutdown late f c .testing c none
  | sends {packet : Packet} (sending : f = .sending packet) : Does size shutdown late f c .testing c (some packet)

theorem collect_sound {size : Nat} {payload : List Word} (destination : Word) (c : Channel)
    (fits : payload.length ≤ size) :
    (collect size destination payload).held = destination :: payload ∧
      collect size destination payload ≠ .stopped ∧ (collect size destination payload).Sound size c := by
  unfold collect
  by_cases more : payload.length < size
  · rw [if_pos more]
    exact ⟨rfl, nofun, more, nofun⟩
  · rw [if_neg more]
    exact ⟨rfl, nofun, Nat.le_antisymm fits (Nat.not_lt.mp more)⟩

theorem step_does {size : Nat} {f : Forwarder} {c : Channel} (sound : f.Sound size c) (shutdown late : Bool) :
    ∃ f' c' sent events, f.step size shutdown late c = ⟨f', c', sent, events⟩ ∧
      Does size shutdown late f c f' c' sent ∧ f'.Sound size c' := by
  cases f with
  | testing =>
    cases shutdown with
    | true => exact ⟨_, _, _, _, rfl, .turns rfl nofun fun _ => .inr (.inl rfl), trivial⟩
    | false => exact ⟨_, _, _, _, rfl, .turns rfl nofun nofun, nofun⟩
  | expecting wait =>
    rcases Wait.step_output_cases sound late with
      ⟨wait', waits, sees⟩ | ⟨word, rest, front, took⟩ | ⟨atRest, empty, closed⟩ | ⟨-, -, expired⟩
    · exact ⟨.expecting wait', c, none, #[], by simp only [step, waits], .turns rfl nofun nofun, sees⟩
    · have began : (expecting wait).step size shutdown late c =
          ⟨beginPayload size word, { c with output := rest.toArray }, none, #[]⟩ := by simp only [step, took]
      unfold beginPayload at began
      by_cases big : Word.capacity < size
      · rw [if_pos big] at began
        exact ⟨_, _, _, _, began, .collapses big front rfl, trivial⟩
      · obtain ⟨held, on, sound⟩ := @collect_sound size [] word { c with output := rest.toArray } size.zero_le
        rw [if_neg big] at began
        exact ⟨_, _, _, _, began, .takes front held nofun on, sound⟩
    · have stops : Does size shutdown late (.expecting wait) c .stopped c none :=
        .turns rfl nofun fun _ => .inr (.inr ⟨atRest, empty⟩)
      exact ⟨.stopped, c, none, #[.forwarderStopped c.program], by simp only [step, closed], stops, trivial⟩
    · exact ⟨.testing, c, none, #[], by simp only [step, expired], .turns rfl nofun nofun, trivial⟩
  | collecting destination payload wait =>
    obtain ⟨few, sees⟩ := sound
    rcases Wait.step_output_cases sees late with
      ⟨wait', waits, sees⟩ | ⟨word, rest, front, took⟩ | ⟨atRest, empty, closed⟩ | ⟨lated, atClock, expired⟩
    · refine ⟨.collecting destination payload wait', c, none, #[], ?_, .turns rfl nofun nofun, few, sees⟩
      simp only [step, waits]
    · have fits : (payload ++ [word]).length ≤ size := by
        rw [List.length_append]
        exact few
      obtain ⟨held, on, sound⟩ := collect_sound destination { c with output := rest.toArray } fits
      exact ⟨_, _, none, #[], by simp only [step, took], .takes front held nofun on, sound⟩
    · refine ⟨.testing, c, none, #[.incompletePacket c.program destination (c.closed .output)], ?_, ?_, trivial⟩
      · simp only [step, closed]
      · exact .drops rfl (.inr ⟨atRest, empty⟩)
    · refine ⟨.testing, c, none, #[.incompletePacket c.program destination (c.timedOut .output)], ?_, ?_, trivial⟩
      · simp only [step, expired]
      · exact .drops rfl (.inl ⟨lated, atClock⟩)
  | sending packet => exact ⟨_, _, _, _, rfl, .sends rfl, trivial⟩
  | stopped => exact ⟨_, _, _, _, rfl, .turns rfl nofun fun _ => .inl rfl, trivial⟩
  | collapsed => exact ⟨_, _, _, _, rfl, .turns rfl (fun _ => rfl) nofun, trivial⟩

theorem Does.state {size : Nat} {shutdown late : Bool} {f f' : Forwarder} {c c' : Channel} {sent : Option Packet}
    (does : Does size shutdown late f c f' c' sent) : c'.state = c.state := by
  cases does <;> rfl

theorem Does.consumes {size : Nat} {shutdown late : Bool} {f f' : Forwarder} {c c' : Channel} {sent : Option Packet}
    (does : Does size shutdown late f c f' c' sent) : c'.output.toList.length ≤ c.output.toList.length := by
  cases does with
  | takes front | collapses _ front =>
    rw [front]
    exact Nat.le_succ _
  | turns | drops | sends => exact Nat.le_refl _

theorem Does.input {size : Nat} {shutdown late : Bool} {f f' : Forwarder} {c c' : Channel} {sent : Option Packet}
    (does : Does size shutdown late f c f' c' sent) : c'.input = c.input := by
  cases does <;> rfl

theorem Sound.of_rests {size : Nat} {f : Forwarder} {c c' : Channel} (sound : f.Sound size c)
    (rests : c.state.isTerminal → c'.state.isTerminal) : f.Sound size c' := by
  cases f with
  | expecting wait => exact fun looks => rests (sound looks)
  | collecting destination payload wait => exact ⟨sound.1, fun looks => rests (sound.2 looks)⟩
  | sending packet => exact sound
  | testing | stopped | collapsed => trivial

end Forwarder

/-! ## Strands -/

/-- The node with words behind those queued for its machine. -/
def Node.fed (node : Node) (words : List Word) : Node :=
  node.withChannel { node.channel with input := node.channel.input ++ words }

theorem Node.fed_nil (node : Node) : node.fed [] = node := by
  simp [fed, withChannel, channel, Worker.withChannel, Worker.channel]

/-- A node by itself: the words that it has written from the start on, those queued then included, and the packets
    that its forwarder has sent. -/
structure Strand where
  node : Node
  written : List Word
  packets : List Packet

/-- What happens to a strand. Whoever feeds and halts it does so as it likes. -/
inductive Strand.Move where
  | work (late : Bool)
  | forward (shutdown late : Bool)
  | feed (words : List Word)
  | halt
  deriving DecidableEq

/-- The words that a move feeds. -/
def Strand.Move.words : Move → List Word
  | .feed words => words
  | .work _ | .forward .. | .halt => []

namespace Node

def moved (size : Nat) (node : Node) : Strand.Move → Node
  | .work late => { node with worker := node.worker.step late }
  | .forward shutdown late =>
    let o := node.forwarder.step size shutdown late node.channel
    { node.withChannel o.channel with forwarder := o.forwarder }
  | .feed words => node.fed words
  | .halt => { node with worker := node.worker.halt.2 }

/-- The packet that a move sends. -/
def sent? (size : Nat) (node : Node) : Strand.Move → Option Packet
  | .forward shutdown late => (node.forwarder.step size shutdown late node.channel).sent
  | .work _ | .feed _ | .halt => none

end Node

namespace Strand

def opened (node : Node) : Strand := ⟨node, node.channel.output.toList, []⟩

/-- The words on the output. -/
def output (s : Strand) : List Word := s.node.channel.output.toList

/-- The run state. -/
def state (s : Strand) : RunState := s.node.channel.state

def act (size : Nat) (s : Strand) (move : Move) : Strand :=
  let node := s.node.moved size move
  { node
    written := s.written ++ node.channel.output.toList.drop s.output.length
    packets := s.packets ++ (s.node.sent? size move).toList }

def run (size : Nat) (s : Strand) (moves : List Move) : Strand := moves.foldl (act size) s

/-- The move lets no wait for a payload run out. -/
def InTime (s : Strand) : Move → Prop
  | .forward _ late =>
    late = true → ∀ destination payload, s.node.forwarder ≠ .collecting destination payload .checkingClock
  | _ => True

/-- No wait for a payload runs out. -/
def Punctual (size : Nat) : Strand → List Move → Prop
  | _, [] => True
  | s, move :: moves => s.InTime move ∧ Punctual size (s.act size move) moves

/-! ## What a move does to a strand -/

/-- A strand after a move other than one of its forwarder. -/
structure Extends (s s' : Strand) : Prop where
  forwarder : s'.node.forwarder = s.node.forwarder
  packets : s'.packets = s.packets
  written : ∃ words, s'.output = s.output ++ words ∧ s'.written = s.written ++ words ∧
    (s.state.isTerminal → words.length + s'.node.worker.due ≤ s.node.worker.due)
  rests : s.state.isTerminal → s'.state = s.state
  ended : s'.state = .ended → s.state ≠ .ended → s'.node.worker.due = 0

theorem Extends.of_silent {size : Nat} {s : Strand} {move : Move}
    (forwarder : (s.act size move).node.forwarder = s.node.forwarder) (sent : s.node.sent? size move = none)
    (output : (s.act size move).output = s.output) (due : (s.act size move).node.worker.due = s.node.worker.due)
    (rests : s.state.isTerminal → (s.act size move).state = s.state)
    (ended : (s.act size move).state = .ended → s.state ≠ .ended → s.node.worker.due = 0) :
    Extends s (s.act size move) where
  forwarder := forwarder
  packets := by simp [act, sent]
  written := by
    refine ⟨[], ?_, ?_, fun _ => ?_⟩
    · rw [output, List.append_nil]
    · change s.written ++ (s.act size move).output.drop s.output.length = s.written ++ []
      rw [output, List.drop_length]
    · refine Nat.le_of_eq ?_
      rw [due, List.length_nil, Nat.zero_add]
  rests := rests
  ended now before := due.trans (ended now before)

/-- The forwarder is sound, and nothing is written once the machine has ended. -/
structure Sound (size : Nat) (s : Strand) : Prop where
  forwarder : s.node.forwarder.Sound size s.node.channel
  ended : s.state = .ended → s.node.worker.due = 0

/-- The strand after an action of its forwarder. -/
def forwarded (s : Strand) (f : Forwarder) (c : Channel) (sent : Option Packet) : Strand :=
  { s with node := { s.node.withChannel c with forwarder := f }, packets := s.packets ++ sent.toList }

@[simp] theorem forwarded_forwarder (s : Strand) (f : Forwarder) (c : Channel) (sent : Option Packet) :
    (s.forwarded f c sent).node.forwarder = f := rfl

theorem forwarded_output (s : Strand) (f : Forwarder) (c : Channel) (sent : Option Packet) :
    (s.forwarded f c sent).output = c.output.toList := rfl

@[simp] theorem forwarded_channel_output (s : Strand) (f : Forwarder) (sent : Option Packet) :
    (s.forwarded f s.node.channel sent).output = s.output := rfl

@[simp] theorem forwarded_written (s : Strand) (f : Forwarder) (c : Channel) (sent : Option Packet) :
    (s.forwarded f c sent).written = s.written := rfl

@[simp] theorem forwarded_packets (s : Strand) (f : Forwarder) (c : Channel) (sent : Option Packet) :
    (s.forwarded f c sent).packets = s.packets ++ sent.toList := rfl

/-- A move is one of the forwarder, or only adds to the output. -/
theorem act_cases {size : Nat} {s : Strand} (sound : s.Sound size) (move : Move) :
    Extends s (s.act size move) ∨
    ∃ shutdown late f c sent, move = .forward shutdown late ∧ s.act size move = s.forwarded f c sent ∧
      s.node.forwarder.Does size shutdown late s.node.channel f c sent ∧ f.Sound size c := by
  cases move with
  | work late =>
    obtain ⟨⟨words, output, few⟩, -, rests, ended⟩ := s.node.worker.step_passes late
    have extended : (s.act size (.work late)).output = s.output ++ words := by
      change (s.node.worker.step late).channel.output.toList = s.node.worker.channel.output.toList ++ words
      rw [output, Array.toList_append]
    refine .inl ⟨rfl, List.append_nil _, ⟨words, extended, ?_, few⟩, rests, ended⟩
    change s.written ++ (s.act size (.work late)).output.drop s.output.length = s.written ++ words
    rw [extended, List.drop_left]
  | forward shutdown late =>
    obtain ⟨f, c, sent, events, stepped, does, kept⟩ := s.node.forwarder.step_does sound.forwarder shutdown late
    refine .inr ⟨shutdown, late, f, c, sent, rfl, ?_, does, kept⟩
    have nothing : c.output.toList.drop s.output.length = [] := List.drop_eq_nil_of_le does.consumes
    simp only [act, Node.moved, Node.sent?, stepped]
    change Strand.mk _ (s.written ++ c.output.toList.drop s.output.length) _ = _
    rw [nothing, List.append_nil]
    rfl
  | feed words => exact .inl (.of_silent rfl rfl rfl rfl (fun _ => rfl) fun ended started => absurd ended started)
  | halt =>
    refine .inl ?_
    rcases s.node.worker.halt_cases with ⟨rest, same⟩ | ⟨live, halted⟩
    · have still : (s.act size .halt).node = s.node := by
        simp only [act, Node.moved, same]
      have state : (s.act size .halt).state = s.state := congrArg (·.channel.state) still
      refine .of_silent (congrArg (·.forwarder) still) rfl (congrArg (·.channel.output.toList) still)
        (congrArg (·.worker.due) still) (fun _ => state) fun ended started => ?_
      exact absurd (state.symm.trans ended) started
    · have changed : (s.act size .halt).node = s.node.withChannel { s.node.channel with state := .halted } := by
        simp only [act, Node.moved, halted]
        rfl
      have state : (s.act size .halt).state = .halted := congrArg (·.channel.state) changed
      refine .of_silent (congrArg (·.forwarder) changed) rfl (congrArg (·.channel.output.toList) changed)
        (congrArg (·.worker.due) changed) (fun atRest => absurd atRest live) fun ended _ => ?_
      rw [state] at ended
      cases ended

section
variable {size : Nat} {s s' : Strand}

theorem Sound.act (sound : s.Sound size) (move : Move) : (s.act size move).Sound size := by
  rcases act_cases sound move with ⟨forwarder, -, written, rests, ended⟩ | ⟨_, _, f, c, sent, rfl, acted, does, kept⟩
  · refine ⟨?_, fun state => ?_⟩
    · rw [forwarder]
      refine sound.forwarder.of_rests fun atRest => ?_
      exact (congrArg RunState.isTerminal (rests atRest)).trans atRest
    · by_cases before : s.state = .ended
      · obtain ⟨words, -, -, few⟩ := written
        have spent := sound.ended before
        have left := few (by rw [before]; rfl)
        omega
      · exact ended state before
  · rw [acted]
    refine ⟨kept, fun ended => sound.ended ?_⟩
    rw [← ended]
    exact does.state.symm

theorem act_rests (sound : s.Sound size) (move : Move) (rest : s.state.isTerminal) :
    (s.act size move).state = s.state := by
  rcases act_cases sound move with extended | ⟨_, _, f, c, sent, -, acted, does, -⟩
  · exact extended.rests rest
  · rw [acted]
    exact does.state

/-- Only a feeding move puts words on the input. -/
theorem act_input (sound : s.Sound size) (move : Move) :
    (s.act size move).node.channel.input.drop s.node.channel.input.length = move.words := by
  cases move with
  | work late => exact List.drop_eq_nil_of_le (s.node.worker.step_passes late).input
  | forward shutdown late =>
    obtain ⟨f, c, sent, events, stepped, does, -⟩ := s.node.forwarder.step_does sound.forwarder shutdown late
    have input : (s.act size (.forward shutdown late)).node.channel.input = c.input := by
      simp only [act, Node.moved, stepped]
      rfl
    rw [input, does.input, List.drop_length]
    rfl
  | feed words => exact List.drop_left
  | halt =>
    have input : (s.act size .halt).node.channel.input = s.node.channel.input := by
      rcases s.node.worker.halt_cases with ⟨-, same⟩ | ⟨-, halted⟩
      · simp only [act, Node.moved, same]
      · simp only [act, Node.moved, halted]
        rfl
    rw [input, List.drop_length]
    rfl

end

end Strand

end IntegerMachine
