import IntegerMachine.Proofs.Journal
import IntegerMachine.Proofs.Modes

/-!
# Ledgers

What a single party and the machine do to a channel, one deed after the other (`Deed`), is written into a ledger:
the words fed, read, emitted and handed out. The books always balance (`Ledger.Balanced`): what has been emitted is
what has been handed out and what is still queued, in order, and likewise for what has been fed.

A call that waits is a loop of atomic actions, or one such loop for every word it is to take. Here each loop is
followed to its end, and shown to come out as the call does that is given in closed form (`Channel.Serves`).
-/
namespace IntegerMachine

/-! ## Waits that nobody disturbs -/

namespace Channel
variable {c : Channel} {queue : Queue}

theorem wait_of_front (timed : c.ioTimeout.isTimable) {word : Word} {rest : List Word}
    (front : c.queued queue = word :: rest) : c.wait queue = (.ok word, c.withQueued queue rest) :=
  wait_of_some timed (by simp only [pop?, front])

theorem wait_of_empty (timed : c.ioTimeout.isTimable) (empty : c.queued queue = []) :
    c.wait queue = (.error (c.starved queue), c) := by
  rw [wait_of_none (by simp only [pop?, empty]), denial_of_timed timed]

end Channel

namespace Wait
variable {c : Channel} {queue : Queue} {wait : Wait}

/-- A wait while no other party acts, by what the clock says at each of its actions. -/
def alone (queue : Queue) (c : Channel) : List Bool → Wait → Outcome × Channel
  | [], wait => (.waiting wait, c)
  | late :: clock, wait =>
    match wait.step queue late c with
    | (.waiting wait, c) => alone queue c clock wait
    | done => done

/-- What a wait answers once it is over. -/
def Outcome.answer? (c : Channel) (queue : Queue) : Outcome → Option (Except Failure Word)
  | .waiting _ => none
  | .received word => some (.ok word)
  | .closed => some (.error (c.closed queue))
  | .expired => some (.error (c.timedOut queue))

/-- What a wait has seen still holds, as nobody else acts. -/
def Saw (queue : Queue) (c : Channel) : Wait → Prop
  | .polling => True
  | .checkingState => c.queued queue = []
  | .checkingQueue => c.queued queue = [] ∧ c.state.isTerminal = true
  | .checkingClock => c.queued queue = [] ∧ c.state.isTerminal = false

/-- The number of actions after which a wait is over at the latest, once the clock has run out. -/
def patience : Wait → Nat
  | .polling => 3
  | .checkingState => 2
  | .checkingQueue | .checkingClock => 1

/-- The wait has come out as the one that is given in closed form. -/
def Settled (queue : Queue) (c : Channel) (reached : Outcome × Channel) : Prop :=
  reached.1.answer? c queue = some (c.wait queue).1 ∧ reached.2 = (c.wait queue).2

/-- The wait goes on, on the same channel. -/
def GoesOn (queue : Queue) (c : Channel) (reached : Outcome × Channel) : Prop :=
  ∃ wait : Wait, reached = (.waiting wait, c) ∧ wait.Saw queue c

theorem step_undisturbed (timed : c.ioTimeout.isTimable) (saw : wait.Saw queue c) (late : Bool) :
    (∃ wait' : Wait, wait.step queue late c = (.waiting wait', c) ∧ wait'.Saw queue c ∧
      (late = true → wait'.patience < wait.patience)) ∨
    Settled queue c (wait.step queue late c) := by
  cases wait with
  | polling =>
    cases front : c.queued queue with
    | nil =>
      have missing : c.pop? queue = none := by simp only [Channel.pop?, front]
      exact .inl ⟨.checkingState, by simp only [step, missing], front, fun _ => by decide⟩
    | cons word rest =>
      have popped : c.pop? queue = some (word, c.withQueued queue rest) := by simp only [Channel.pop?, front]
      refine .inr ?_
      unfold Settled
      rw [Channel.wait_of_front timed front]
      simp only [step, popped, Outcome.answer?]
      exact ⟨trivial, trivial⟩
  | checkingState =>
    refine .inl ⟨_, rfl, ?_⟩
    cases atRest : c.state.isTerminal with
    | true => exact ⟨⟨saw, atRest⟩, fun _ => by decide⟩
    | false => exact ⟨⟨saw, atRest⟩, fun _ => by decide⟩
  | checkingQueue =>
    obtain ⟨empty, atRest⟩ := saw
    refine .inr ?_
    unfold Settled
    rw [Channel.wait_of_empty timed empty]
    simp [step, empty, Outcome.answer?, Channel.starved, atRest]
  | checkingClock =>
    obtain ⟨empty, live⟩ := saw
    cases late with
    | false => exact .inl ⟨.polling, rfl, trivial, fun late => absurd late Bool.false_ne_true⟩
    | true =>
      refine .inr ?_
      unfold Settled
      rw [Channel.wait_of_empty timed empty]
      simp [step, Outcome.answer?, Channel.starved, live]

theorem alone_of_waiting {wait' : Wait} {late : Bool} (steps : wait.step queue late c = (.waiting wait', c))
    (clock : List Bool) : alone queue c (late :: clock) wait = alone queue c clock wait' := by
  simp only [alone, steps]

theorem alone_of_settled {late : Bool} (settled : Settled queue c (wait.step queue late c)) (clock : List Bool) :
    alone queue c (late :: clock) wait = wait.step queue late c := by
  unfold alone
  rcases stepped : wait.step queue late c with ⟨wait' | word | _ | _, c'⟩
  · rw [stepped] at settled
    cases settled.1
  all_goals rfl

/-- However the clock goes, a wait goes on or has come out as it should. -/
theorem alone_cases (timed : c.ioTimeout.isTimable) (saw : wait.Saw queue c) (clock : List Bool) :
    GoesOn queue c (alone queue c clock wait) ∨ Settled queue c (alone queue c clock wait) := by
  induction clock generalizing wait with
  | nil => exact .inl ⟨wait, rfl, saw⟩
  | cons late clock ih =>
    rcases step_undisturbed timed saw late with ⟨wait', steps, saw', -⟩ | settled
    · rw [alone_of_waiting steps]
      exact ih saw'
    · rw [alone_of_settled settled]
      exact .inr settled

/-- Once the clock has run out a wait is soon over. -/
theorem alone_late (timed : c.ioTimeout.isTimable) (saw : wait.Saw queue c) {n : Nat} (long : wait.patience ≤ n) :
    Settled queue c (alone queue c (List.replicate n true) wait) := by
  induction n generalizing wait with
  | zero =>
    have positive : 0 < wait.patience := by cases wait <;> decide
    omega
  | succ n ih =>
    rw [List.replicate_succ]
    rcases step_undisturbed timed saw true with ⟨wait', steps, saw', nearer⟩ | settled
    · rw [alone_of_waiting steps]
      have fewer := nearer rfl
      exact ih saw' (by omega)
    · rw [alone_of_settled settled]
      exact settled

theorem alone_append (clock more : List Bool) :
    alone queue c (clock ++ more) wait =
      match alone queue c clock wait with
      | (.waiting wait, c) => alone queue c more wait
      | done => done := by
  induction clock generalizing c wait with
  | nil => rfl
  | cons late clock ih =>
    simp only [List.cons_append, alone]
    rcases wait.step queue late c with ⟨wait' | word | _ | _, c'⟩
    · exact ih
    all_goals rfl

/-- A wait that nobody disturbs comes out as the one in closed form, three actions after the clock has run out
    at the latest. -/
theorem alone_settles (timed : c.ioTimeout.isTimable) (queue : Queue) (clock : List Bool) :
    Settled queue c (alone queue c (clock ++ List.replicate 3 true) .polling) := by
  have saw : Wait.polling.Saw queue c := trivial
  rw [alone_append]
  rcases alone_cases timed saw clock with ⟨wait, reached, saw'⟩ | settled
  · have short : wait.patience ≤ 3 := by cases wait <;> decide
    rw [reached]
    exact alone_late timed saw' short
  · rcases reached : alone queue c clock .polling with ⟨wait' | word | _ | _, c'⟩
    · rw [reached] at settled
      cases settled.1
    all_goals
      rw [reached] at settled
      exact settled

end Wait

/-! ## Calls that go word by word -/

namespace Channel

/-- How the taking of several words came out: the words taken, and the failure of the wait for the next one. -/
structure Gathering where
  taken : List Word
  failure? : Option Failure
  channel : Channel

/-- What the party that has gathered the words is answered. On a failure they are lost to it. -/
def Gathering.result (g : Gathering) : Except Failure (List Word) :=
  match g.failure? with
  | none => .ok g.taken
  | some failure => .error failure

/-- Takes `n` words off the output one at a time, until a wait fails. -/
def gather (c : Channel) : Nat → Gathering
  | 0 => ⟨[], none, c⟩
  | n + 1 =>
    match c.consume with
    | (.ok word, c) => { c.gather n with taken := word :: (c.gather n).taken }
    | (.error failure, c) => ⟨[], some failure, c⟩

/-- Takes words off the output one at a time as long as there are any, but no more than `n`. -/
def skim (c : Channel) : Nat → List Word × Channel
  | 0 => ([], c)
  | n + 1 =>
    match c.tryConsume with
    | (some word, c) => (word :: (c.skim n).1, (c.skim n).2)
    | (none, c) => ([], c)

variable (c : Channel)

theorem gather_eq (timed : c.ioTimeout.isTimable) (n : Nat) :
    c.gather n =
      if n ≤ c.output.toList.length then
        ⟨c.output.toList.take n, none, c.withQueued .output (c.output.toList.drop n)⟩
      else ⟨c.output.toList, some (c.starved .output), c.withQueued .output []⟩ := by
  induction n generalizing c with
  | zero => rfl
  | succ n ih =>
    cases front : c.output.toList with
    | nil =>
      have empty : c.output = [].toArray := by rw [← front]
      have starves : c.consume = (.error (c.starved .output), c) := wait_of_empty timed front
      have same : c.withQueued .output [] = c := by
        simp only [withQueued, ← empty]
      simp [gather, starves, same]
    | cons word rest =>
      have takes : c.consume = (.ok word, c.withQueued .output rest) := wait_of_front timed front
      have later := ih (c.withQueued .output rest) timed
      have left : (c.withQueued .output rest).output.toList = rest := rfl
      rw [left] at later
      simp only [gather, takes, later, List.length_cons, Nat.succ_le_succ_iff]
      by_cases enough : n ≤ rest.length
      · simp only [if_pos enough]
        rfl
      · simp only [if_neg enough]
        rfl

theorem awaitOutput_eq_gather (timed : c.ioTimeout.isTimable) {n : Nat} (fits : n ≤ Word.capacity) :
    c.awaitOutput n = ((c.gather n).result, (c.gather n).channel) := by
  rw [gather_eq c timed]
  unfold awaitOutput
  rw [if_pos ⟨timed, fits⟩]
  by_cases enough : n ≤ c.output.toList.length
  · rw [if_pos enough]
    exact if_pos enough
  · rw [if_neg enough]
    exact if_neg enough

theorem skim_eq_consumeUpTo (n : Nat) : c.skim n = c.consumeUpTo n := by
  induction n generalizing c with
  | zero => rfl
  | succ n ih =>
    cases front : c.output.toList with
    | nil =>
      have empty : c.output = [].toArray := by rw [← front]
      simp [skim, tryConsume, pop?, consumeUpTo, queued, withQueued, front, ← empty]
    | cons word rest =>
      have takes : c.tryConsume = (some word, c.withQueued .output rest) := by
        simp only [tryConsume, pop?, queued, front]
      simp only [skim, takes, ih]
      simp only [consumeUpTo, queued, front, withQueued, List.take_succ_cons, List.drop_succ_cons]

theorem drain_eq_skim {n : Nat} (all : c.output.toList.length ≤ n) : c.drain = c.skim n := by
  have taken : c.output.toList.take n = c.output.toList := List.take_of_length_le all
  have left : c.output.toList.drop n = [] := List.drop_eq_nil_of_le all
  rw [skim_eq_consumeUpTo]
  simp only [drain, consumeUpTo, queued, taken, left]

theorem foldlM_feed (words : List Word) : words.foldlM feed c = c.feedAll words := by
  induction words generalizing c with
  | nil => simp [feedAll, pure, Except.pure]
  | cons word words ih =>
    rw [List.foldlM_cons]
    cases rest : c.state.isTerminal with
    | true =>
      have refused : c.feed word = .error (.invalidState c.program .feed c.state) :=
        Machine.feedAll_of_terminal rest (List.cons_ne_nil word [])
      rw [refused, Machine.feedAll_of_terminal rest (List.cons_ne_nil word words)]
      rfl
    | false =>
      have accepted : c.feed word = .ok { c with input := c.input ++ [word] } := Machine.feedAll_of_live rest [word]
      have still : ({ c with input := c.input ++ [word] } : Channel).state.isTerminal = false := rest
      have later := (ih _).trans (Machine.feedAll_of_live still words)
      rw [accepted, Machine.feedAll_of_live rest]
      refine later.trans ?_
      rw [List.append_assoc, List.singleton_append]

end Channel

/-! ## What a channel answers -/

/-- Why a wait on the output fails while nothing is queued: the machine is at rest, or else the time is over. -/
def Channel.Denies (c : Channel) (failure : Failure) : Prop :=
  if c.state.isTerminal then failure = .closed c.program .output c.state
  else ∃ waited, failure = .timeout c.program .output waited

theorem Channel.denies_starved (c : Channel) : c.Denies (c.starved .output) := by
  unfold Denies starved
  by_cases atRest : c.state.isTerminal
  · rw [if_pos atRest, if_pos atRest]
    rfl
  · rw [if_neg atRest, if_neg atRest]
    exact ⟨c.ioTimeout, rfl⟩

theorem Channel.awaitOutput_gathers (c : Channel) (timed : c.ioTimeout.isTimable) {n : Nat} (fits : n ≤ Word.capacity) :
    c.awaitOutput n = ((c.gather n).result, (c.gather n).channel) ∧
    (n ≤ c.output.size →
      c.awaitOutput n = (.ok (c.output.toList.take n), c.withQueued .output (c.output.toList.drop n))) ∧
    (c.output.size < n → (c.gather n).taken = c.output.toList ∧
      ∃ failure, c.Denies failure ∧ c.awaitOutput n = (.error failure, c.withQueued .output [])) := by
  have loop := c.awaitOutput_eq_gather timed fits
  refine ⟨loop, fun enough => ?_, fun short => ?_⟩
  · have enough : n ≤ c.output.toList.length := enough
    rw [loop, gather_eq c timed, if_pos enough]
    rfl
  · have short : ¬ n ≤ c.output.toList.length := Nat.not_le.mpr short
    rw [loop, gather_eq c timed, if_neg short]
    exact ⟨rfl, _, c.denies_starved, rfl⟩

/-- What the calls on a channel come to while no other party acts. A call that waits first sets a deadline. It is served
    if that is near, and breaks down if the clock cannot hold it. -/
structure Channel.Serves (c : Channel) : Prop where
  /-- Words are fed one by one. A machine at rest accepts none, and any other one all of them. -/
  feed (words : List Word) : c.feedAll words = words.foldlM Channel.feed c ∧
    c.feedAll words =
      if c.state.isTerminal ∧ words ≠ [] then .error (.invalidState c.program .feed c.state)
      else .ok { c with input := c.input ++ words }
  /-- A wait on either queue is over three looks after the clock has run out, and comes out as the closed form
      says whenever it is over. -/
  wait (near : c.ioTimeout.Near) (queue : Queue) (clock : List Bool) :
    (Wait.GoesOn queue c (Wait.alone queue c clock .polling) ∨
      Wait.Settled queue c (Wait.alone queue c clock .polling)) ∧
    Wait.Settled queue c (Wait.alone queue c (clock ++ List.replicate 3 true) .polling)
  /-- The oldest word can be consumed in every run state. -/
  consume_front {word : Word} {rest : List Word} (front : c.output.toList = word :: rest) :
    (c.ioTimeout.Near → c.consume = (.ok word, c.withQueued .output rest)) ∧
    c.tryConsume = (some word, c.withQueued .output rest)
  consume_empty (empty : c.output.toList = []) :
    (c.ioTimeout.Near → ∃ failure, c.Denies failure ∧ c.consume = (.error failure, c)) ∧
    c.tryConsume = (none, c)
  /-- The first `n` words can be awaited as soon as they are there; otherwise all that are there are lost. -/
  await (near : c.ioTimeout.Near) {n : Nat} (fits : n ≤ Word.capacity) :
    c.awaitOutput n = ((c.gather n).result, (c.gather n).channel) ∧
    (n ≤ c.output.size →
      c.awaitOutput n = (.ok (c.output.toList.take n), c.withQueued .output (c.output.toList.drop n))) ∧
    (c.output.size < n → (c.gather n).taken = c.output.toList ∧
      ∃ failure, c.Denies failure ∧ c.awaitOutput n = (.error failure, c.withQueued .output []))
  untimed (endless : ¬ c.ioTimeout.isTimable) :
    c.consume = (.error (.beyondCapacity c.program), c) ∧
    ∀ n, c.awaitOutput n = (.error (.beyondCapacity c.program), c)
  consumeUpTo (n : Nat) : c.consumeUpTo n = c.skim n ∧
    c.consumeUpTo n =
      (c.output.toList.take (min n c.output.size), c.withQueued .output (c.output.toList.drop (min n c.output.size)))
  drain : c.drain = c.skim c.output.size ∧ c.drain = (c.output.toList, c.withQueued .output [])

theorem Channel.serves (c : Channel) : c.Serves where
  feed words := by
    refine ⟨(c.foldlM_feed words).symm, ?_⟩
    by_cases refuses : c.state.isTerminal ∧ words ≠ []
    · rw [if_pos refuses]
      exact Machine.feedAll_of_terminal refuses.1 refuses.2
    · rw [if_neg refuses]
      refine if_neg fun refused => refuses ?_
      simpa using refused
  wait near queue clock := by
    have saw : Wait.polling.Saw queue c := trivial
    exact ⟨Wait.alone_cases near.isTimable saw clock, Wait.alone_settles near.isTimable queue clock⟩
  consume_front front :=
    ⟨fun near => wait_of_front near.isTimable front, by simp only [tryConsume, pop?, queued, front]⟩
  consume_empty empty :=
    ⟨fun near => ⟨_, c.denies_starved, wait_of_empty near.isTimable empty⟩,
      by simp only [tryConsume, pop?, queued, empty]⟩
  await near _ fits := c.awaitOutput_gathers near.isTimable fits
  untimed endless := ⟨wait_of_untimed endless .output, fun n => if_neg fun timed => endless timed.1⟩
  consumeUpTo n := by
    refine ⟨(c.skim_eq_consumeUpTo n).symm, ?_⟩
    simp only [Channel.consumeUpTo, queued]
    rcases Nat.le_total n c.output.size with few | many
    · rw [Nat.min_eq_left few]
    · have all : c.output.toList.length ≤ n := many
      have every : c.output.toList.length ≤ c.output.size := Nat.le_refl _
      rw [Nat.min_eq_right many, List.take_of_length_le all, List.drop_eq_nil_of_le all,
        List.take_of_length_le every, List.drop_eq_nil_of_le every]
  drain := ⟨c.drain_eq_skim (Nat.le_refl _), rfl⟩

/-! ## Ledgers -/

/-- The words that a reply hands out. -/
def Reply.handed : Reply → List Word
  | .word taken => [taken]
  | .word? taken => taken.toList
  | .words taken => taken
  | .done | .state _ | .step _ | .flag _ => []

namespace ChannelCall

/-- The words that a call has put on the input, by what it answers. -/
def accepted : ChannelCall → Except Failure Reply → List Word
  | .feed word, .ok _ => [word]
  | .feedAll words, .ok _ => words
  | .feedText text, .ok _ => Word.ofText text.toList
  | _, _ => []

/-- The words that a failed call has taken and does not hand out. A call that breaks down takes none. -/
def lost (c : Channel) : ChannelCall → List Word
  | .awaitOutput n => if c.ioTimeout.isTimable ∧ n ≤ Word.capacity then (c.gather n).taken else []
  | _ => []

/-- The words that a call has taken off the output, by what it answers. -/
def removed (c : Channel) (call : ChannelCall) : Except Failure Reply → List Word
  | .ok reply => reply.handed
  | .error _ => call.lost c

end ChannelCall

/-- What happens on a channel: a call, or an action of its machine. -/
inductive Deed where
  | call (call : ChannelCall)
  /-- The machine reads a queued word, if there is one. -/
  | tryInput
  /-- The machine waits for a word. -/
  | waitInput
  | emit (word : Word)
  | start
  | suspend
  | revive
  | finish

/-- A channel with what has passed through it. -/
structure Ledger where
  channel : Channel
  /-- The words that have been put on the input. -/
  fed : List Word
  /-- The words that the machine has read. -/
  read : List Word
  emitted : List Word
  /-- The words that have been taken off the output, by whichever call: those handed out and those lost. -/
  handed : List Word

namespace Ledger

/-- The ledger of a new channel. -/
def opened (config : Config) : Ledger := ⟨.ofConfig config, [], [], [], []⟩

/-- The ledger once the run state has moved, if it was the right one. -/
def moved (l : Ledger) (source target : RunState) : Ledger :=
  { l with channel := (l.channel.transition? source target).getD l.channel }

/-- The ledger once a deed is done. -/
def enter (l : Ledger) : Deed → Ledger
  | .call call =>
    { l with
      channel := (call.answer l.channel).2
      fed := l.fed ++ call.accepted (call.answer l.channel).1
      handed := l.handed ++ call.removed l.channel (call.answer l.channel).1 }
  | .tryInput =>
    match l.channel.pop? .input with
    | some (word, channel) => { l with channel, read := l.read ++ [word] }
    | none => l
  | .waitInput =>
    match l.channel.wait .input with
    | (.ok word, channel) => { l with channel, read := l.read ++ [word] }
    | (.error _, channel) => { l with channel }
  | .emit word => { l with channel := l.channel.emit word, emitted := l.emitted ++ [word] }
  | .start => l.moved .initialising .running
  | .suspend => l.moved .running .awaitingInput
  | .revive => l.moved .awaitingInput .running
  | .finish => l.moved .running .ended

/-- Deeds one after the other. -/
def run (l : Ledger) (deeds : List Deed) : Ledger := deeds.foldl enter l

/-- What went onto a queue is what came off it, and what is still there. -/
structure Balanced (l : Ledger) : Prop where
  output : l.emitted = l.handed ++ l.channel.output.toList
  input : l.fed = l.read ++ l.channel.input

end Ledger

/-- A call takes words off the front of the output and puts words at the end of the input. -/
structure ChannelCall.Moves (c : Channel) (call : ChannelCall) : Prop where
  output : c.output.toList = call.removed c (call.answer c).1 ++ (call.answer c).2.output.toList
  input : (call.answer c).2.input = c.input ++ call.accepted (call.answer c).1

namespace ChannelCall.Moves
variable {c : Channel}

theorem of_yields {call : ChannelCall} (yields : c.Yields (call.removed c (call.answer c).1) (call.answer c).2)
    (silent : call.accepted (call.answer c).1 = []) : call.Moves c := by
  obtain ⟨rest, front, left⟩ := yields
  constructor
  · rw [left]
    exact front
  · rw [left, silent, List.append_nil]

theorem of_accepts {call : ChannelCall} {words : List Word} (answer : call.answer c = c.accepts (c.feedAll words))
    (accepted : call.accepted (.ok .done) = words) (refused : ∀ failure, call.accepted (.error failure) = [])
    (keeps : call.lost c = []) : call.Moves c := by
  by_cases refuses : c.state.isTerminal && !words.isEmpty
  · have failed : call.answer c = (.error (.invalidState c.program .feed c.state), c) := by
      rw [answer, Channel.feedAll, if_pos refuses]
      rfl
    constructor
    · rw [failed]
      simp [removed, keeps]
    · rw [failed, refused, List.append_nil]
  · have done : call.answer c = (.ok .done, { c with input := c.input ++ words }) := by
      rw [answer, Channel.feedAll, if_neg refuses]
      rfl
    constructor
    · rw [done]
      simp [removed, Reply.handed]
    · rw [done, accepted]

end ChannelCall.Moves

theorem ChannelCall.moves (c : Channel) (call : ChannelCall) : call.Moves c := by
  cases call with
  | feed word => exact .of_accepts rfl rfl (fun _ => rfl) rfl
  | feedAll words => exact .of_accepts rfl rfl (fun _ => rfl) rfl
  | feedText text => exact .of_accepts rfl rfl (fun _ => rfl) rfl
  | tryConsume => exact .of_yields c.tryConsume_yields rfl
  | consume =>
    have yields := c.consume_yields
    refine .of_yields ?_ rfl
    simp only [answer]
    rcases consumed : c.consume with ⟨failure | word, left⟩ <;>
    · rw [consumed] at yields
      exact yields
  | consumeUpTo n => exact .of_yields (c.yields_drop n) rfl
  | awaitOutput n =>
    have yields := c.awaitOutput_yields n
    refine .of_yields ?_ rfl
    by_cases fits : c.ioTimeout.isTimable ∧ n ≤ Word.capacity
    · rw [if_pos fits] at yields
      simp only [answer]
      have awaits := c.awaitOutput_gathers fits.1 fits.2
      by_cases enough : n ≤ c.output.size
      · rw [awaits.2.1 enough] at yields ⊢
        exact yields
      · obtain ⟨all, failure, -, failed⟩ := awaits.2.2 (Nat.not_le.mp enough)
        rw [failed]
        simp only [Except.map, removed, lost, if_pos fits, all]
        exact c.drain_yields
    · have asked : c.awaitOutput n = (.error (.beyondCapacity c.program), c) := if_neg fits
      simp only [answer, asked, Except.map, removed, lost, if_neg fits]
      exact c.yields_nil
  | drain => exact .of_yields c.drain_yields rfl
  | halt =>
    have kept : c.halt.2.output = c.output ∧ c.halt.2.input = c.input := by
      unfold Channel.halt
      split <;> exact ⟨rfl, rfl⟩
    constructor
    · simp [answer, removed, Reply.handed, kept.1]
    · simp [answer, accepted, kept.2]

namespace Ledger
variable {l : Ledger}

namespace Balanced

theorem moved (balanced : l.Balanced) (source target : RunState) : (l.moved source target).Balanced := by
  unfold Ledger.moved Channel.transition?
  split
  · exact ⟨balanced.output, balanced.input⟩
  · exact balanced

theorem tookInput {word : Word} {channel : Channel} (balanced : l.Balanced)
    (popped : l.channel.pop? .input = some (word, channel)) :
    Balanced { l with channel, read := l.read ++ [word] } := by
  obtain ⟨front, left⟩ := Channel.pop?_input_eq_some popped
  constructor
  · rw [left]
    exact balanced.output
  · rw [balanced.input, front, List.append_assoc]
    rfl

/-- Every deed keeps the books balanced. -/
theorem enter (balanced : l.Balanced) (deed : Deed) : (l.enter deed).Balanced := by
  cases deed with
  | call call =>
    have moves := call.moves l.channel
    constructor
    · rw [Ledger.enter, List.append_assoc, ← moves.output]
      exact balanced.output
    · rw [Ledger.enter, moves.input, ← List.append_assoc, ← balanced.input]
  | tryInput =>
    unfold Ledger.enter
    cases popped : l.channel.pop? .input with
    | none => exact balanced
    | some front => exact balanced.tookInput popped
  | waitInput =>
    unfold Ledger.enter
    rcases l.channel.wait_cases .input with ⟨word, channel, popped, waited⟩ | ⟨failure, waited⟩
    · simp only [waited]
      exact balanced.tookInput popped
    · simp only [waited]
      exact balanced
  | emit word =>
    constructor
    · change l.emitted ++ [word] = l.handed ++ (l.channel.output.push word).toList
      rw [balanced.output, Array.toList_push, List.append_assoc]
    · exact balanced.input
  | start | suspend | revive | finish => exact balanced.moved _ _

theorem run (balanced : l.Balanced) (deeds : List Deed) : (l.run deeds).Balanced := by
  induction deeds generalizing l with
  | nil => exact balanced
  | cons deed deeds ih => exact ih (balanced.enter deed)

end Balanced

theorem opened_balanced (config : Config) : (opened config).Balanced := ⟨rfl, rfl⟩

theorem moved_timeout (l : Ledger) (source target : RunState) :
    (l.moved source target).channel.ioTimeout = l.channel.ioTimeout := by
  unfold moved Channel.transition?
  split <;> rfl

theorem enter_timeout (l : Ledger) (deed : Deed) : (l.enter deed).channel.ioTimeout = l.channel.ioTimeout := by
  cases deed with
  | call call => exact call.answer_timeout l.channel
  | tryInput =>
    unfold enter
    cases popped : l.channel.pop? .input with
    | none => rfl
    | some front => exact Channel.pop?_timeout popped
  | waitInput =>
    unfold enter
    rcases l.channel.wait_cases .input with ⟨word, channel, popped, waited⟩ | ⟨failure, waited⟩
    · simp only [waited]
      exact Channel.pop?_timeout popped
    · simp only [waited]
  | emit word => rfl
  | start | suspend | revive | finish => exact l.moved_timeout _ _

theorem run_timeout (l : Ledger) (deeds : List Deed) : (l.run deeds).channel.ioTimeout = l.channel.ioTimeout := by
  induction deeds generalizing l with
  | nil => rfl
  | cons deed deeds ih => exact (ih (l.enter deed)).trans (l.enter_timeout deed)

/-- Whatever has happened on a channel, word for word and in order: what was emitted has been handed out, lost to a
    failed wait or is still queued, and what was fed has been read or is still queued. Every further call comes out
    as the queues and the run state say. Only a call that waits breaks down if the configured time has no deadline. -/
theorem keeps_order (config : Config) (deeds : List Deed) :
    ((opened config).run deeds).Balanced ∧ ((opened config).run deeds).channel.Serves ∧
      ((opened config).run deeds).channel.ioTimeout = config.ioTimeout :=
  ⟨(opened_balanced config).run deeds, Channel.serves _, (opened config).run_timeout deeds⟩

/-- Queued output survives termination, until a wait for more than there is loses it. -/
example :
    ((opened {}).run
      [.start, .emit 7, .emit 8, .emit 9, .call .halt, .call .consume, .call (.awaitOutput 5), .call .consume]).handed =
      [7, 8, 9] := by
  decide +kernel

end Ledger

end IntegerMachine
