import IntegerMachine.Proofs.Interleaving
import IntegerMachine.Proofs.Ledger
import IntegerMachine.Proofs.Strand

/-!
# Closed queues

Any number of consumers wait for the output of a worker, while others feed it, take words without waiting and halt
it (`Crowd.run`). A consumer is told that the queue is closed when it has found the machine at rest and the output
empty. From then on the run state stays as it is, but a halt may have come after the worker looked at the run state
and before it writes: a word that is due then is still written (`Worker.due`). There is at most one such word, and
none if the program has ended. Once nothing is due or queued any more the queue is closed for good
(`Crowd.Deserted`).
-/
namespace IntegerMachine

/-! ## Consumers -/

/-- A party that takes words off the output, waiting for them. -/
inductive Consumer where
  /-- It waits for a word, and wants `more` after that one. -/
  | waiting (more : Nat) (got : List Word) (wait : Wait)
  | served (words : List Word)
  | closed
  | expired
  deriving DecidableEq

namespace Consumer

/-- A consumer that still wants this many words. -/
def wanting : Nat → List Word → Consumer
  | 0, got => .served got
  | more + 1, got => .waiting more got .polling

/-- What an action of its wait makes of a consumer. -/
def after (more : Nat) (got : List Word) : Wait.Outcome → Consumer
  | .waiting wait => .waiting more got wait
  | .received word => wanting more (got ++ [word])
  | .closed => .closed
  | .expired => .expired

end Consumer

/-- The words that an action of a wait takes off the queue. -/
def Wait.Outcome.taken : Wait.Outcome → List Word
  | .received word => [word]
  | .waiting _ | .closed | .expired => []

/-- A worker among others, and those who wait for its output. -/
structure Crowd where
  world : World
  consumers : List Consumer

/-- What happens to a crowd. -/
inductive Crowd.Turn where
  /-- The worker or another party acts. -/
  | act (action : Action)
  /-- A consumer enters, and wants this many words. -/
  | enter (wanted : Nat)
  /-- A consumer acts; `late` tells whether its time is over. -/
  | wait (index : Nat) (late : Bool)

namespace World

def channel (world : World) : Channel := world.worker.channel

/-- The words that the worker has written: those taken, and those still on the output. -/
def written (world : World) : List Word := world.consumed ++ world.channel.output.toList

/-- The number of words that can still be taken, once the machine is at rest. -/
def stock (world : World) : Nat := world.channel.output.size + world.worker.due

/-- The world once words have been taken off the output, and have left this channel. -/
def taking (world : World) (words : List Word) (channel : Channel) : World :=
  { world with worker := world.worker.withChannel channel, consumed := world.consumed ++ words }

end World

namespace Crowd

/-- The consumers that are yet to enter have a worker to themselves. -/
def opened (w : Worker) : Crowd := ⟨⟨w, [], []⟩, []⟩

/-- One action of one party. -/
def step (s : Crowd) : Turn → Crowd
  | .act action => { s with world := s.world.act action }
  | .enter wanted => { s with consumers := s.consumers ++ [.wanting wanted []] }
  | .wait index late =>
    match s.consumers[index]? with
    | some (.waiting more got wait) =>
      match wait.step .output late s.world.channel with
      | (outcome, channel) =>
        ⟨s.world.taking outcome.taken channel, s.consumers.set index (.after more got outcome)⟩
    | _ => s

/-- Actions one after the other. -/
def run (s : Crowd) (turns : List Turn) : Crowd := turns.foldl step s

theorem run_append (s : Crowd) (turns more : List Turn) : s.run (turns ++ more) = (s.run turns).run more :=
  List.foldl_append

end Crowd

/-! ## What is still written -/

/-- What an action does to the stream of words that a worker writes. -/
structure World.Sells (world world' : World) : Prop where
  written : ∃ words : List Word, world'.written = world.written ++ words ∧
    (world.channel.state.isTerminal → words.length + world'.worker.due ≤ world.worker.due)
  taken : world.consumed.length ≤ world'.consumed.length
  rests : world.channel.state.isTerminal → world'.channel.state = world.channel.state
  ended : world'.channel.state = .ended → world.channel.state ≠ .ended → world'.worker.due = 0

theorem Channel.feed_eq_ok {c c' : Channel} {word : Word} (accepted : c.feed word = .ok c') :
    ∃ input, c' = { c with input } := by
  unfold feed feedAll at accepted
  split at accepted
  · cases accepted
  · cases accepted
    exact ⟨_, rfl⟩

namespace World
variable {world world' : World}

theorem sells_of_yields {words : List Word} {channel : Channel} (yields : world.channel.Yields words channel) :
    world.Sells (world.taking words channel) := by
  obtain ⟨rest, front, rfl⟩ := yields
  refine ⟨⟨[], ?_, fun _ => Nat.le_of_eq (Nat.zero_add _)⟩, ?_, fun _ => rfl, fun ended started => ?_⟩
  · unfold written
    rw [front, List.append_nil, ← List.append_assoc]
    rfl
  · simp [taking]
  · exact absurd ended started

theorem sells_of_still (written : world'.written = world.written) (consumed : world'.consumed = world.consumed)
    (due : world'.worker.due = world.worker.due)
    (state : world.channel.state.isTerminal → world'.channel.state = world.channel.state)
    (lives : world'.channel.state = .ended → world.channel.state = .ended) : world.Sells world' where
  written := ⟨[], by rw [written, List.append_nil], fun _ => by rw [due, List.length_nil, Nat.zero_add]⟩
  taken := by rw [consumed]
  rests := state
  ended ended started := absurd (lives ended) started

theorem act_sells (world : World) (action : Action) : world.Sells (world.act action) := by
  cases action with
  | work late =>
    obtain ⟨⟨words, output, few⟩, -, rests, ended⟩ := world.worker.step_passes late
    refine ⟨⟨words, ?_, few⟩, Nat.le_refl _, rests, ended⟩
    change world.consumed ++ (world.worker.step late).channel.output.toList = _
    rw [output, Array.toList_append, ← List.append_assoc]
    rfl
  | feed word =>
    simp only [act]
    cases accepted : world.worker.channel.feed word with
    | error failure => exact sells_of_still rfl rfl rfl (fun _ => rfl) id
    | ok channel =>
      obtain ⟨input, rfl⟩ := Channel.feed_eq_ok accepted
      exact sells_of_still rfl rfl rfl (fun _ => rfl) id
  | send word => exact sells_of_still rfl rfl rfl (fun _ => rfl) id
  | take =>
    have yields := world.channel.tryConsume_yields
    unfold act
    rcases taken : world.worker.channel.tryConsume with ⟨_ | word, channel⟩
    · exact sells_of_still rfl rfl rfl (fun _ => rfl) id
    · have taken : world.channel.tryConsume = (some word, channel) := taken
      rw [taken] at yields
      exact sells_of_yields yields
  | halt =>
    unfold act
    rcases world.worker.halt_cases with ⟨atRest, same⟩ | ⟨live, same⟩
    · rw [same]
      exact sells_of_still rfl rfl rfl (fun _ => rfl) id
    · rw [same]
      refine sells_of_still rfl rfl rfl (fun atRest => absurd atRest live) ?_
      rintro ⟨⟩

theorem Sells.stock (sells : world.Sells world') (atRest : world.channel.state.isTerminal) :
    world'.stock ≤ world.stock := by
  obtain ⟨⟨words, written, few⟩, taken, -, -⟩ := sells
  have total := congrArg List.length written
  have due := few atRest
  simp only [World.written, List.length_append, Array.length_toList] at total
  unfold World.stock
  omega

end World

theorem Wait.step_output_yields (wait : Wait) (late : Bool) (c : Channel) :
    c.Yields (wait.step .output late c).1.taken (wait.step .output late c).2 := by
  cases wait with
  | polling =>
    unfold step
    cases popped : c.pop? .output with
    | none => exact c.yields_nil
    | some front => exact Channel.pop?_output_yields popped
  | checkingState => exact c.yields_nil
  | checkingQueue | checkingClock =>
    simp only [step]
    split <;> exact c.yields_nil

namespace Crowd
variable {s : Crowd}

theorem step_wait_of_waiting {index more : Nat} {got : List Word} {wait : Wait}
    (present : s.consumers[index]? = some (.waiting more got wait)) (late : Bool) :
    s.step (.wait index late) =
      ⟨s.world.taking (wait.step .output late s.world.channel).1.taken (wait.step .output late s.world.channel).2,
        s.consumers.set index (.after more got (wait.step .output late s.world.channel).1)⟩ := by
  simp only [step, present]

/-- A consumer either waits or has nothing more to do. -/
theorem step_wait_cases (s : Crowd) (index : Nat) (late : Bool) :
    (∃ more got wait, s.consumers[index]? = some (.waiting more got wait)) ∨ s.step (.wait index late) = s := by
  rcases present : s.consumers[index]? with _ | ⟨more, got, wait⟩ | _ | _ | _
  · exact .inr (by simp only [step, present])
  · exact .inl ⟨more, got, wait, rfl⟩
  all_goals exact .inr (by simp only [step, present])

theorem step_sells (s : Crowd) (turn : Turn) : s.world.Sells (s.step turn).world := by
  cases turn with
  | act action => exact s.world.act_sells action
  | enter wanted => exact World.sells_of_still rfl rfl rfl (fun _ => rfl) id
  | wait index late =>
    rcases s.step_wait_cases index late with ⟨more, got, wait, present⟩ | same
    · rw [step_wait_of_waiting present]
      exact World.sells_of_yields (wait.step_output_yields late s.world.channel)
    · rw [same]
      exact World.sells_of_still rfl rfl rfl (fun _ => rfl) id

/-! ## What consumers are told -/

/-- What consumers have seen or been told holds, and nothing is due from a program that has ended. -/
structure Sound (s : Crowd) : Prop where
  sees : ∀ more got wait, Consumer.waiting more got wait ∈ s.consumers → wait.Sees s.world.channel
  ended : s.world.channel.state = .ended → s.world.worker.due = 0
  told : Consumer.closed ∈ s.consumers → s.world.channel.state.isTerminal ∧ s.world.stock ≤ 1 ∧
    (s.world.channel.state = .ended → s.world.stock = 0)

theorem wanting_cases (wanted : Nat) (got : List Word) :
    (∃ words, Consumer.wanting wanted got = .served words) ∨
    ∃ more, Consumer.wanting wanted got = .waiting more got .polling := by
  cases wanted with
  | zero => exact .inl ⟨got, rfl⟩
  | succ more => exact .inr ⟨more, rfl⟩

theorem sees_wanting (c : Channel) {wanted more : Nat} {got got' : List Word} {wait : Wait}
    (same : Consumer.waiting more got wait = .wanting wanted got') : wait.Sees c := by
  rcases wanting_cases wanted got' with ⟨words, served⟩ | ⟨more', waits⟩
  · rw [served] at same
    cases same
  · rw [waits] at same
    cases same
    exact nofun

theorem closed_ne_wanting (wanted : Nat) (got : List Word) : Consumer.closed ≠ .wanting wanted got := by
  cases wanted <;> exact nofun

/-- What a consumer comes to with an action of its wait is so. -/
theorem after_told {c : Channel} {wait : Wait} (sees : wait.Sees c) (late : Bool) (more : Nat) (got : List Word) :
    (∀ more' got' wait', Consumer.after more got (wait.step .output late c).1 = .waiting more' got' wait' →
      wait'.Sees (wait.step .output late c).2) ∧
    (Consumer.after more got (wait.step .output late c).1 = .closed →
      (wait.step .output late c).2.state.isTerminal ∧ (wait.step .output late c).2.output.size = 0) := by
  rcases Wait.step_output_cases sees late with
    ⟨wait', waits, sees'⟩ | ⟨word, rest, front, took⟩ | ⟨atRest, empty, closed⟩ | ⟨-, -, expired⟩
  · rw [waits]
    refine ⟨?_, nofun⟩
    rintro _ _ _ ⟨⟩
    exact sees'
  · rw [took]
    refine ⟨fun more' got' wait' same => ?_, fun same => ?_⟩
    · exact sees_wanting _ same.symm
    · exact absurd same.symm (closed_ne_wanting more _)
  · rw [closed]
    exact ⟨nofun, fun _ => ⟨atRest, congrArg List.length empty⟩⟩
  · rw [expired]
    exact ⟨nofun, nofun⟩

namespace Sound

/-- What holds of the consumers that were there before holds still. -/
theorem later {s' : Crowd} (sound : s.Sound) (sells : s.world.Sells s'.world)
    (waits : ∀ more got wait, Consumer.waiting more got wait ∈ s'.consumers →
      Consumer.waiting more got wait ∈ s.consumers ∨ wait.Sees s'.world.channel)
    (told : Consumer.closed ∈ s'.consumers → Consumer.closed ∈ s.consumers ∨
      (s'.world.channel.state.isTerminal ∧ s'.world.channel.output.size = 0)) : s'.Sound := by
  have ended : s'.world.channel.state = .ended → s'.world.worker.due = 0 := by
    intro ended
    by_cases before : s.world.channel.state = .ended
    · obtain ⟨words, -, few⟩ := sells.written
      have due := few (by rw [before]; rfl)
      have none := sound.ended before
      omega
    · exact sells.ended ended before
  refine ⟨fun more got wait member => ?_, ended, fun member => ?_⟩
  · rcases waits more got wait member with before | sees
    · intro checking
      have atRest := sound.sees more got wait before checking
      rw [sells.rests atRest]
      exact atRest
    · exact sees
  · rcases told member with before | ⟨atRest, empty⟩
    · obtain ⟨atRest, few, none⟩ := sound.told before
      have fewer := sells.stock atRest
      have same := sells.rests atRest
      rw [same]
      exact ⟨atRest, by omega, fun ended => by have nothing := none ended; omega⟩
    · -- the consumer has just looked, so that only what is due can still come
      have single := s'.world.worker.due_le_one
      unfold World.stock
      rw [empty, Nat.zero_add]
      exact ⟨atRest, single, ended⟩

/-- A consumer that acts or enters knows of what it has come to. -/
theorem withConsumer {world : World} {consumers : List Consumer} (sound : s.Sound) (consumer : Consumer)
    (sells : s.world.Sells world) (others : ∀ other ∈ consumers, other ∈ s.consumers ∨ other = consumer)
    (sees : ∀ more got wait, consumer = .waiting more got wait → wait.Sees world.channel)
    (told : consumer = .closed → world.channel.state.isTerminal ∧ world.channel.output.size = 0) :
    Sound ⟨world, consumers⟩ := by
  refine sound.later sells (fun more got wait member => ?_) fun member => ?_
  · rcases others _ member with before | same
    · exact .inl before
    · exact .inr (sees more got wait same.symm)
  · rcases others _ member with before | same
    · exact .inl before
    · exact .inr (told same.symm)

theorem step (sound : s.Sound) (turn : Turn) : (s.step turn).Sound := by
  have sells := s.step_sells turn
  cases turn with
  | act action => exact sound.later sells (fun _ _ _ member => .inl member) .inl
  | enter wanted =>
    refine sound.withConsumer (.wanting wanted []) sells (fun other member => ?_) ?_ ?_
    · exact (List.mem_append.mp member).imp_right List.mem_singleton.mp
    · exact fun more got wait same => sees_wanting _ same.symm
    · exact fun same => absurd same.symm (closed_ne_wanting wanted [])
  | wait index late =>
    rcases s.step_wait_cases index late with ⟨more, got, wait, present⟩ | same
    · have sees := sound.sees more got wait (List.mem_of_getElem? present)
      obtain ⟨waits, closes⟩ := after_told sees late more got
      rw [step_wait_of_waiting present] at sells ⊢
      exact sound.withConsumer _ sells (fun other => List.mem_or_eq_of_mem_set) waits closes
    · rw [same]
      exact sound

theorem run (sound : s.Sound) (turns : List Turn) : (s.run turns).Sound := by
  induction turns generalizing s with
  | nil => exact sound
  | cons turn turns ih => exact ih (sound.step turn)

end Sound

theorem sound_opened {m : Machine} {w : Worker} (spawned : Worker.spawn m = .ok w) : (opened w).Sound := by
  have due : w.due = 0 := by
    unfold Worker.spawn at spawned
    split at spawned
    · cases spawned
    · split at spawned
      · cases spawned
      · cases spawned
        rfl
  exact ⟨nofun, fun _ => due, nofun⟩

/-! ## Once nothing is left -/

/-- The machine is at rest, no word is queued and none is due. -/
structure Deserted (s : Crowd) : Prop where
  rests : s.world.channel.state.isTerminal
  stock : s.world.stock = 0

/-- The turn is one of this consumer. -/
def Turn.isOf (index : Nat) : Turn → Bool
  | .wait other _ => other == index
  | .act _ | .enter _ => false

/-- A consumer that has found nothing yet, and will be turned away within `n` actions of its own. -/
def Rebuffed (more n : Nat) (consumer : Consumer) : Prop :=
  consumer = .closed ∨
    ∃ wait : Wait, consumer = .waiting more [] wait ∧ wait ≠ .checkingClock ∧ wait.patience ≤ n

/-- Nothing can be taken, and whoever enters to wait for a word is told that the queue is closed, at the latest
    with its third action. -/
structure Shut (s : Crowd) : Prop where
  tryConsume : s.world.channel.tryConsume = (none, s.world.channel)
  entering (more : Nat) (turns : List Turn) : ∃ consumer,
    (s.run (.enter (more + 1) :: turns)).consumers[s.consumers.length]? = some consumer ∧
    (consumer = .closed ∨ ∃ wait, consumer = .waiting more [] wait) ∧
    (3 ≤ turns.countP (Turn.isOf s.consumers.length) → consumer = .closed)

end Crowd

/-- A wait that finds nothing on the output of a machine at rest does not come to look at the clock. -/
theorem Wait.step_output_rebuffs {wait : Wait} {c : Channel} (atRest : c.state.isTerminal)
    (empty : c.output.toList = []) (hopeless : wait ≠ .checkingClock) (late : Bool) :
    wait.step .output late c = (.closed, c) ∨
    ∃ wait' : Wait, wait.step .output late c = (.waiting wait', c) ∧ wait' ≠ .checkingClock ∧
      wait'.patience < wait.patience := by
  cases wait with
  | polling =>
    have missing : c.pop? .output = none := by simp only [Channel.pop?, Channel.queued, empty]
    exact .inr ⟨.checkingState, by simp only [step, missing], by decide, by decide⟩
  | checkingState => exact .inr ⟨.checkingQueue, by simp only [step, if_pos atRest], by decide, by decide⟩
  | checkingQueue => exact .inl (by simp [step, Channel.queued, empty])
  | checkingClock => exact absurd rfl hopeless

namespace Crowd
variable {s : Crowd}

namespace Deserted

theorem step (deserted : s.Deserted) (turn : Turn) : (s.step turn).Deserted := by
  have sells := s.step_sells turn
  have fewer := sells.stock deserted.rests
  have none := deserted.stock
  constructor
  · rw [sells.rests deserted.rests]
    exact deserted.rests
  · omega

theorem empty (deserted : s.Deserted) : s.world.channel.output.toList = [] := by
  have none := deserted.stock
  unfold World.stock at none
  have size : s.world.channel.output.toList.length = 0 := by
    rw [Array.length_toList]
    omega
  exact List.eq_nil_of_length_eq_zero size

variable {index more n : Nat} {consumer : Consumer}

theorem rebuffs (deserted : s.Deserted) (present : s.consumers[index]? = some consumer)
    (rebuffed : Rebuffed more n consumer) (late : Bool) :
    ∃ consumer', (s.step (.wait index late)).consumers[index]? = some consumer' ∧
      Rebuffed more (n - 1) consumer' := by
  rcases rebuffed with rfl | ⟨wait, rfl, hopeless, soon⟩
  · have same : s.step (.wait index late) = s := by simp only [Crowd.step, present]
    rw [same]
    exact ⟨.closed, present, .inl rfl⟩
  · obtain ⟨inside, -⟩ := List.getElem?_eq_some_iff.mp present
    rw [step_wait_of_waiting present]
    refine ⟨_, List.getElem?_set_self inside, ?_⟩
    rcases Wait.step_output_rebuffs deserted.rests deserted.empty hopeless late with
      closed | ⟨wait', waits, hopeless', sooner⟩
    · rw [closed]
      exact .inl rfl
    · rw [waits]
      exact .inr ⟨wait', rfl, hopeless', by omega⟩

theorem keeps_others (present : s.consumers[index]? = some consumer) {turn : Turn} (other : turn.isOf index = false) :
    (s.step turn).consumers[index]? = some consumer := by
  cases turn with
  | act action => exact present
  | enter wanted =>
    obtain ⟨inside, -⟩ := List.getElem?_eq_some_iff.mp present
    exact (List.getElem?_append_left inside).trans present
  | wait index' late =>
    rcases s.step_wait_cases index' late with ⟨more, got, wait, waiting⟩ | same
    · have apart : index' ≠ index := by simpa [Turn.isOf] using other
      rw [step_wait_of_waiting waiting]
      exact (List.getElem?_set_ne apart).trans present
    · rw [same]
      exact present

/-- Every action of its own brings a consumer that has found nothing nearer to being turned away. -/
theorem run_rebuffs (deserted : s.Deserted) (present : s.consumers[index]? = some consumer)
    (rebuffed : Rebuffed more n consumer) (turns : List Turn) :
    ∃ consumer', (s.run turns).consumers[index]? = some consumer' ∧
      Rebuffed more (n - turns.countP (Turn.isOf index)) consumer' := by
  induction turns generalizing s n consumer with
  | nil => exact ⟨consumer, present, rebuffed⟩
  | cons turn turns ih =>
    cases own : turn.isOf index with
    | true =>
      obtain ⟨late, rfl⟩ : ∃ late, turn = .wait index late := by
        cases turn with
        | act | enter => cases own
        | wait index' late => exact ⟨late, by rw [show index' = index by simpa [Turn.isOf] using own]⟩
      obtain ⟨consumer', present', rebuffed'⟩ := deserted.rebuffs present rebuffed late
      obtain ⟨last, reached, turned⟩ := ih (deserted.step _) present' rebuffed'
      rw [List.countP_cons_of_pos own, Nat.add_comm, ← Nat.sub_sub]
      exact ⟨last, reached, turned⟩
    | false =>
      rw [List.countP_cons_of_neg (by simp [own])]
      exact ih (deserted.step turn) (keeps_others present own) rebuffed

theorem shut (deserted : s.Deserted) : s.Shut where
  tryConsume := by simp only [Channel.tryConsume, Channel.pop?, Channel.queued, deserted.empty]
  entering more turns := by
    have entered : (s.step (.enter (more + 1))).consumers[s.consumers.length]? = some (.waiting more [] .polling) :=
      List.getElem?_concat_length
    have fresh : Rebuffed more 3 (.waiting more [] .polling) := .inr ⟨.polling, rfl, by decide, Nat.le_refl 3⟩
    obtain ⟨consumer, reached, rebuffed⟩ := (deserted.step _).run_rebuffs entered fresh turns
    refine ⟨consumer, reached, ?_, fun acted => ?_⟩
    · rcases rebuffed with closed | ⟨wait, waits, -⟩
      · exact .inl closed
      · exact .inr ⟨wait, waits⟩
    · rcases rebuffed with closed | ⟨wait, -, -, spent⟩
      · exact closed
      · have positive : 0 < wait.patience := by cases wait <;> decide
        omega

end Deserted

theorem run_sells (s : Crowd) (atRest : s.world.channel.state.isTerminal) (turns : List Turn) :
    (s.run turns).world.channel.state = s.world.channel.state ∧
    (∃ words, (s.run turns).world.written = s.world.written ++ words ∧
      words.length + (s.run turns).world.worker.due ≤ s.world.worker.due) ∧
    (s.run turns).world.stock ≤ s.world.stock := by
  induction turns generalizing s with
  | nil => exact ⟨rfl, ⟨[], (List.append_nil _).symm, Nat.le_of_eq (Nat.zero_add _)⟩, Nat.le_refl _⟩
  | cons turn turns ih =>
    have sells := s.step_sells turn
    have same := sells.rests atRest
    obtain ⟨words, written, few⟩ := sells.written
    obtain ⟨state, ⟨more, written', few'⟩, stock⟩ := ih (s.step turn) (by rw [same]; exact atRest)
    have first := few atRest
    refine ⟨state.trans same, ⟨words ++ more, ?_, ?_⟩, stock.trans (sells.stock atRest)⟩
    · rw [← List.append_assoc, ← written]
      exact written'
    · rw [List.length_append]
      change _ + ((s.step turn).run turns).world.worker.due ≤ _
      omega

variable {t : Crowd} {m : Machine} {w : Worker}

/-- Once a consumer has been told that the output is closed, the machine stays at rest, and at most the word that
    was due when it was halted is still written. The queue is closed for good if the program has ended, or as soon
    as no word is due or queued any more. -/
theorem closed_final (spawned : Worker.spawn m = .ok w) (turns later : List Turn) (ran : (opened w).run turns = s)
    (told : Consumer.closed ∈ s.consumers) (went : s.run later = t) :
    s.world.channel.state.isTerminal ∧ t.world.channel.state = s.world.channel.state ∧
    (∃ words, t.world.written = s.world.written ++ words ∧
      words.length + t.world.worker.due ≤ s.world.worker.due) ∧
    s.world.stock ≤ 1 ∧ (s.world.channel.state = .ended → s.world.stock = 0) ∧
    (s.world.stock = 0 → t.world.written = s.world.written ∧ t.Shut) := by
  subst ran went
  have sound := (sound_opened spawned).run turns
  obtain ⟨atRest, few, none⟩ := sound.told told
  obtain ⟨state, ⟨words, written, due⟩, stock⟩ := run_sells _ atRest later
  refine ⟨atRest, state, ⟨words, written, due⟩, few, none, fun empty => ⟨?_, Deserted.shut ⟨?_, ?_⟩⟩⟩
  · have nothing : words.length = 0 := by
      unfold World.stock at empty
      omega
    rw [written, List.eq_nil_of_length_eq_zero nothing, List.append_nil]
  · rw [state]
    exact atRest
  · omega

/-- The worker of a program that writes one word. -/
def writing : Machine := .ofProgram [104, 5, 99] {}

/-- The program has ended by itself. A consumer of two words gets one and is turned away. -/
theorem closed_final_ended :
    let turns := List.replicate 9 (.act (.work false)) ++ .enter 2 :: List.replicate 4 (.wait 0 false)
    ∃ w, Worker.spawn writing = .ok w ∧ .closed ∈ ((opened w).run turns).consumers ∧
      ((opened w).run turns).world.channel.state = .ended ∧
      ((opened w).run (turns ++ [.act (.work false)])).world.written = [5] ∧
      ((opened w).run (turns ++ [.act (.work false)])).Shut := by
  intro turns
  refine ⟨_, rfl, by decide +kernel, by decide +kernel, ?_⟩
  have spawned : Worker.spawn writing = .ok _ := rfl
  obtain ⟨-, -, -, -, ended, final⟩ :=
    closed_final spawned turns [.act (.work false)] rfl (by decide +kernel) rfl
  obtain ⟨written, shut⟩ := final (ended (by decide +kernel))
  rw [run_append]
  exact ⟨written.trans (by decide +kernel), shut⟩

/-- The machine is halted when its worker is about to write. A consumer is told that the queue is closed, and then
    the word comes. -/
theorem closed_reopens :
    let turns := List.replicate 4 (.act (.work false)) ++ .act .halt :: .enter 1 :: List.replicate 3 (.wait 0 false)
    ∃ w, Worker.spawn writing = .ok w ∧ .closed ∈ ((opened w).run turns).consumers ∧
      ((opened w).run turns).world.written = [] ∧
      ((opened w).run (turns ++ [.act (.work false)])).world.channel.tryConsume.1 = some 5 := by
  exact ⟨_, rfl, by decide +kernel, by decide +kernel, by decide +kernel⟩

end Crowd

end IntegerMachine
