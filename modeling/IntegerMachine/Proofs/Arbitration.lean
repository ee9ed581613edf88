import IntegerMachine.Proofs.Strand
import IntegerMachine.Proofs.Thread

/-!
# Who halts a machine

A machine on the thread of its owner, and other parties that halt it, feed it and take its output, in any order of
their atomic actions (`Contest.run`). The machine comes to rest once, at most one halting call has brought it there,
and from then on at most the instruction is completed that the thread was at (`Contest.arbitrated`).

An exchange of the run state only succeeds while the machine is not at rest, since no party tries to exchange a state
at rest (`Halting.Sound`). What a machine at rest may still do is bounded by what its thread has outstanding, which no
action of the thread makes more (`Thread.step_settles`). The owner may call `run`, `resume` and `step` as often as it
likes; a worker is an owner that calls `resume` again and again (`Worker.step_on`).
-/
namespace IntegerMachine

/-! ## Halting calls -/

/-- A halting call only exchanges a run state in which the machine is not at rest. -/
def Halting.Sound : Halting → Prop
  | .exchanging seen => seen.isTerminal = false
  | .looking | .answered _ => True

theorem Halting.sound_seeing (state : RunState) : (seeing state).Sound := by
  cases rest : state.isTerminal with
  | true =>
    rw [seeing_of_terminal rest]
    trivial
  | false =>
    rw [seeing_of_live rest]
    exact rest

theorem Halting.seeing_ne_won (state : RunState) : seeing state ≠ .answered true := by
  unfold seeing
  split <;> simp

/-- An action of a halting call either leaves the channel as it is or wins: it halts a machine that was not at
    rest. -/
theorem Halting.step_cases {halting : Halting} (sound : halting.Sound) (c : Channel) :
    (∃ halting' : Halting, halting.step c = (halting', c) ∧ halting'.Sound ∧
      (halting' = .answered true ↔ halting = .answered true)) ∨
    (c.state.isTerminal = false ∧ halting ≠ .answered true ∧
      halting.step c = (.answered true, { c with state := .halted })) := by
  cases halting with
  | looking =>
    have unwon := seeing_ne_won c.state
    exact .inl ⟨seeing c.state, rfl, sound_seeing c.state, by simp [unwon]⟩
  | exchanging seen =>
    by_cases same : c.state = seen
    · have moved : c.transition? seen .halted = some { c with state := .halted } := if_pos same
      refine .inr ⟨same ▸ sound, nofun, ?_⟩
      simp only [step, moved]
    · have stays : c.transition? seen .halted = none := if_neg same
      have unwon := seeing_ne_won c.state
      refine .inl ⟨seeing c.state, ?_, sound_seeing c.state, by simp [unwon]⟩
      simp only [step, stays]
  | answered changed => exact .inl ⟨.answered changed, rfl, trivial, Iff.rfl⟩

theorem Halting.step_of_terminal {halting : Halting} (sound : halting.Sound) {c : Channel}
    (atRest : c.state.isTerminal) : ∃ halting' : Halting, halting.step c = (halting', c) := by
  rcases step_cases sound c with ⟨halting', stepped, -⟩ | ⟨live, -⟩
  · exact ⟨halting', stepped⟩
  · rw [atRest] at live
    cases live

/-! ## The thread -/

namespace Thread

/-- The thread has passed its last look at the run state before an instruction, and has not completed that yet. -/
def Phase.isCommitted : Phase → Bool
  | .dispatching | .settling _ | .reading .. | .waiting .. | .storing .. | .unanswered _ | .suspending _
  | .emitting _ | .ending _ => true
  | _ => false

/-- The number of instructions that a thread may still complete without another look at the run state. -/
def outstanding (t : Thread) : Nat := t.phase.isCommitted.toNat

/-- A thread that halts its machine after a fault does so soundly. -/
def Phase.Sound : Phase → Prop
  | .halting _ attempt => attempt.Sound
  | _ => True

/-- What an action of a thread does to a machine at rest: each instruction that it completes and each word that it
    writes is taken from what it has outstanding. -/
structure Settles (t t' : Thread) : Prop where
  state : t'.machine.state = t.machine.state
  steps : t.machine.steps ≤ t'.machine.steps
  bounded : t'.machine.steps + t'.outstanding ≤ t.machine.steps + t.outstanding
  written : ∃ words, t'.machine.output = t.machine.output ++ words ∧ words.length + t'.outstanding ≤ t.outstanding

variable {m m' : Machine} {drive : Drive} {phase phase' : Phase} {p : Pending} {dest : Argument}

@[simp] theorem isCommitted_next (drive : Drive) (step : Step) : (drive.next step).isCommitted = false := by
  cases drive <;> rfl

@[simp] theorem isCommitted_first (drive : Drive) : drive.first.isCommitted = false := by
  cases drive <;> rfl

theorem sound_begun (drive : Drive) : drive.begun.Sound := by
  cases drive <;> exact trivial

theorem sound_next (drive : Drive) (step : Step) : (drive.next step).Sound := by
  cases drive <;> exact trivial

theorem sound_first (drive : Drive) : drive.first.Sound := by
  cases drive <;> exact trivial

theorem outstanding_le_one (t : Thread) : t.outstanding ≤ 1 := Bool.toNat_le _

/-- Neither the run state nor the output has changed, and what is completed was outstanding. -/
theorem Settles.of_still (state : m'.state = m.state) (output : m'.output = m.output) (steps : m.steps ≤ m'.steps)
    (bounded : m'.steps + phase'.isCommitted.toNat ≤ m.steps + phase.isCommitted.toNat) :
    Settles ⟨m, drive, phase⟩ ⟨m', drive, phase'⟩ where
  state := state
  steps := steps
  bounded := bounded
  written := by
    refine ⟨[], by simp [output], ?_⟩
    simp only [List.length_nil, outstanding]
    omega

/-- The thread only goes on to another action. -/
theorem Settles.of_turn (turns : phase'.isCommitted = true → phase.isCommitted = true) :
    Settles ⟨m, drive, phase⟩ ⟨m, drive, phase'⟩ := by
  refine .of_still rfl rfl (Nat.le_refl _) ?_
  cases committed : phase'.isCommitted with
  | true =>
    have stays := turns committed
    simp only [stays, Nat.le_refl]
  | false => simp

theorem Settles.of_free (free : phase'.isCommitted = false) : Settles ⟨m, drive, phase⟩ ⟨m, drive, phase'⟩ := by
  refine .of_turn ?_
  simp [free]

/-- The thread completes the instruction that it is at. -/
theorem Settles.of_completed (state : m'.state = m.state) (output : m'.output = m.output)
    (steps : m'.steps = m.steps + 1) (committed : phase.isCommitted = true) (free : phase'.isCommitted = false) :
    Settles ⟨m, drive, phase⟩ ⟨m', drive, phase'⟩ := by
  refine .of_still state output (by omega) ?_
  rw [free, committed, steps]
  exact Nat.le_refl _

/-- The thread gives the instruction up. -/
theorem Settles.of_dropped (state : m'.state = m.state) (output : m'.output = m.output) (steps : m'.steps = m.steps)
    (free : phase'.isCommitted = false) : Settles ⟨m, drive, phase⟩ ⟨m', drive, phase'⟩ := by
  refine .of_still state output (by omega) ?_
  rw [free, steps]
  exact Nat.le_add_right _ _

theorem settle_settles (m : Machine) (p : Pending) (committed : phase.isCommitted) :
    Settles ⟨m, drive, phase⟩ (settle m drive p) := by
  unfold settle
  cases p.effect with
  | advance | jump | rebase => exact .of_completed rfl rfl rfl committed (isCommitted_next ..)
  | output | halt | input => exact .of_turn fun _ => committed

theorem strike_settles (m : Machine) (failure : Failure) : Settles ⟨m, drive, phase⟩ (strike m drive failure) := by
  unfold strike
  split <;> exact .of_free rfl

/-- A thread settles too that has changed its machine out of sight of the others before. -/
theorem Settles.of_channel {t : Thread} (later : Settles ⟨m', drive, phase⟩ t) (channel : m'.channel = m.channel)
    (steps : m'.steps = m.steps) : Settles ⟨m, drive, phase⟩ t := by
  have state : m'.state = m.state := congrArg Channel.state channel
  have output : m'.output = m.output := congrArg (fun c => c.output.toList) channel
  refine ⟨later.state.trans state, ?_, ?_, ?_⟩
  · exact steps ▸ later.steps
  · exact steps ▸ later.bounded
  · obtain ⟨words, written, few⟩ := later.written
    exact ⟨words, written.trans (by rw [output]), few⟩

theorem read_settles (m : Machine) : Settles ⟨m, drive, .reading p dest⟩ (read m drive p dest) := by
  unfold read
  cases popped : m.channel.pop? .input with
  | some front =>
    obtain ⟨-, left⟩ := Channel.pop?_input_eq_some popped
    simp only
    rw [left]
    exact .of_still rfl rfl (Nat.le_refl _) (Nat.le_refl _)
  | none =>
    simp only
    cases m.config.defaultInput with
    | some word => exact .of_turn fun _ => rfl
    | none =>
      simp only
      cases m.config.mode with
      | cooperative => exact .of_turn fun _ => rfl
      | worker => exact .of_turn fun _ => rfl

theorem await_settles (late : Bool) (m : Machine) (wait : Wait) :
    Settles ⟨m, drive, .waiting p dest wait⟩ (await late m drive p dest wait) := by
  obtain ⟨input, -, left⟩ := wait.step_input late m.channel
  unfold await
  rcases waited : wait.step .input late m.channel with ⟨wait' | word | _ | _, channel⟩ <;>
  · rw [waited] at left
    obtain rfl : channel = { m.channel with input } := left
    exact .of_still rfl rfl (Nat.le_refl _) (by simp [Phase.isCommitted])

/-- An action of the thread of a machine at rest. -/
theorem step_settles {t : Thread} (sound : t.phase.Sound) (atRest : t.machine.state.isTerminal) (late : Bool) :
    Settles t (t.step late) := by
  obtain ⟨m, drive, phase⟩ := t
  have stopped : m.state ≠ .running := RunState.stopped_of_terminal atRest
  cases phase with
  | idle | answered | collapsed => exact .of_turn id
  | entering =>
    simp only [step]
    cases state : m.state with
    | ended | halted => exact .of_free rfl
    | initialising | running | awaitingInput =>
      rw [show (Thread.mk m drive .entering).machine.state = m.state from rfl, state] at atRest
      cases atRest
  | starting =>
    have stays : m.channel.transition? .initialising .running = none := if_neg (RunState.started_of_terminal atRest)
    simp only [step, Machine.start, stays]
    exact .of_free rfl
  | reviving =>
    have stays : m.channel.transition? .awaitingInput .running = none := by
      refine if_neg fun awaiting => ?_
      rw [show (Thread.mk m drive .reviving).machine.state = m.channel.state from rfl, awaiting] at atRest
      cases atRest
    simp only [step, stays]
    exact .of_free rfl
  | checking =>
    simp only [step, if_neg stopped]
    exact .of_free rfl
  | dispatching =>
    simp only [step]
    rcases dispatched : m.dispatch with ⟨failure | p, d, events⟩
    · obtain ⟨channel, steps, -⟩ := Machine.dispatch_kept dispatched
      exact (strike_settles d failure).of_channel channel steps
    · obtain ⟨channel, steps, -⟩ := Machine.dispatch_kept dispatched
      have turns : Settles ⟨d, drive, .dispatching⟩ ⟨d, drive, .settling p⟩ := .of_turn fun _ => rfl
      exact turns.of_channel channel steps
  | settling p => exact settle_settles m p rfl
  | reading p dest => exact read_settles m
  | waiting p dest wait => exact await_settles late m wait
  | storing p dest word =>
    simp only [step]
    rcases m.receive_cases p.start p.instruction dest word with ⟨memory, received⟩ | ⟨memory, fault, refused⟩
    · simp only [received]
      exact .of_completed rfl rfl rfl rfl (isCommitted_next ..)
    · simp only [refused]
      let failure : Failure := .faulted m.name p.start p.instruction.text fault
      have struck : Settles ⟨{ m with memory }, drive, .storing p dest word⟩ (strike { m with memory } drive failure) :=
        strike_settles _ failure
      exact struck.of_channel rfl rfl
  | unanswered p =>
    simp only [step, if_neg stopped]
    exact .of_dropped rfl rfl rfl (isCommitted_next ..)
  | suspending p =>
    simp only [step]
    rcases m.suspend_cases p.start #[] with ⟨running, -⟩ | ⟨-, suspended⟩
    · exact absurd running stopped
    · rw [suspended]
      exact .of_dropped rfl rfl rfl (isCommitted_next ..)
  | emitting word =>
    have free : (step late ⟨m, drive, .emitting word⟩).outstanding = 0 := by
      simp only [step, outstanding, isCommitted_next, Bool.toNat_false]
    refine ⟨rfl, Nat.le_succ _, ?_, [word], ?_, ?_⟩
    · rw [free]
      exact Nat.le_refl _
    · simp [step, Machine.counted, Machine.emit, Machine.output, Channel.emit]
    · rw [free]
      exact Nat.le_refl _
  | ending start =>
    simp only [step]
    rcases m.finish_cases start #[] with ⟨running, -⟩ | ⟨-, finished⟩
    · exact absurd running stopped
    · rw [finished]
      exact .of_completed rfl rfl rfl rfl (isCommitted_next ..)
  | halting failure attempt =>
    obtain ⟨attempt', stepped⟩ := Halting.step_of_terminal (c := m.channel) sound atRest
    simp only [step, halt, stepped]
    cases attempt' <;> exact .of_free rfl
  | returning => exact .of_free rfl

/-! ### Soundness -/

theorem sound_after (drive : Drive) (o : Outcome Step) : (after drive o).phase.Sound := by
  rcases o with ⟨_ | step, m, events⟩
  · trivial
  · exact sound_next drive step

theorem sound_strike (m : Machine) (drive : Drive) (failure : Failure) : (strike m drive failure).phase.Sound := by
  unfold strike
  split <;> trivial

theorem sound_settle (m : Machine) (drive : Drive) (p : Pending) : (settle m drive p).phase.Sound := by
  unfold settle
  cases p.effect with
  | advance | jump | rebase => exact sound_next drive _
  | output | halt | input => trivial

theorem sound_read (m : Machine) (drive : Drive) (p : Pending) (dest : Argument) :
    (read m drive p dest).phase.Sound := by
  unfold read
  cases m.channel.pop? .input with
  | some front => trivial
  | none =>
    cases m.config.defaultInput with
    | some word => trivial
    | none =>
      simp only
      cases m.config.mode <;> trivial

theorem sound_await (late : Bool) (m : Machine) (drive : Drive) (p : Pending) (dest : Argument) (wait : Wait) :
    (await late m drive p dest wait).phase.Sound := by
  unfold await
  split <;> trivial

theorem sound_halt {m : Machine} {attempt : Halting} (sound : attempt.Sound) (drive : Drive) (failure : Failure) :
    (halt m drive failure attempt).phase.Sound := by
  unfold halt
  rcases Halting.step_cases sound m.channel with ⟨attempt', stepped, sound', -⟩ | ⟨-, -, stepped⟩
  · simp only [stepped]
    cases attempt' <;> exact sound'
  · simp only [stepped]
    trivial

theorem step_sound {t : Thread} (sound : t.phase.Sound) (late : Bool) : (t.step late).phase.Sound := by
  obtain ⟨m, drive, phase⟩ := t
  cases phase with
  | idle | returning | answered | collapsed => trivial
  | entering =>
    simp only [step]
    cases state : m.state with
    | running => exact sound_begun drive
    | initialising | awaitingInput | ended | halted => trivial
  | starting =>
    simp only [step]
    rcases m.start with ⟨_ | _, left, events⟩
    · trivial
    · exact sound_begun drive
  | reviving =>
    simp only [step]
    cases m.channel.transition? .awaitingInput .running with
    | none => trivial
    | some channel => exact sound_begun drive
  | checking =>
    simp only [step]
    split <;> trivial
  | dispatching =>
    simp only [step]
    rcases m.dispatch with ⟨failure | p, left, events⟩
    · exact sound_strike left drive failure
    · trivial
  | settling p => exact sound_settle m drive p
  | reading p dest => exact sound_read m drive p dest
  | waiting p dest wait => exact sound_await late m drive p dest wait
  | storing p dest word =>
    simp only [step]
    rcases m.receive p.start p.instruction dest word with ⟨failure | _, left⟩
    · exact sound_strike left drive failure
    · exact sound_next drive _
  | unanswered p =>
    simp only [step]
    split
    · trivial
    · exact sound_next drive _
  | suspending p => exact sound_after drive _
  | emitting word => exact sound_next drive _
  | ending start => exact sound_after drive _
  | halting failure attempt => exact sound_halt sound drive failure

end Thread

/-! ## Everyone together -/

/-- A machine on the thread of its owner, the calls of other parties that halt it, and the words that have been taken
    from its output. -/
structure Contest where
  thread : Thread
  halts : List Halting
  consumed : List Word

namespace Contest

/-- An atomic action of the owner's thread or of another party. Looks of other parties at the run state or at an empty
    queue change nothing and are left out, but for those of halting calls. -/
inductive Move where
  /-- The owner makes a call, unless one is under way. -/
  | call (drive : Drive)
  /-- The thread acts; `late` tells whether a wait of it has run out. -/
  | work (late : Bool)
  /-- Another party sets out to halt the machine. -/
  | challenge
  /-- The halting call that was made as number `i` acts. -/
  | contend (i : Nat)
  /-- A word is fed, by a party that may have looked at the run state some time before. -/
  | feed (word : Word)
  /-- A word of output is taken, if there is one. -/
  | take

def withChannel (c : Contest) (channel : Channel) : Contest :=
  { c with thread := { c.thread with machine := { c.thread.machine with channel } } }

/-- One action. -/
def move (c : Contest) : Move → Contest
  | .call drive => { c with thread := c.thread.call drive }
  | .work late => { c with thread := c.thread.step late }
  | .challenge => { c with halts := c.halts ++ [.looking] }
  | .contend i =>
    match c.halts[i]? with
    | none => c
    | some attempt =>
      let (attempt, channel) := attempt.step c.thread.machine.channel
      { c.withChannel channel with halts := c.halts.set i attempt }
  | .feed word =>
    let channel := c.thread.machine.channel
    c.withChannel { channel with input := channel.input ++ [word] }
  | .take =>
    match c.thread.machine.channel.tryConsume with
    | (some word, channel) => { c.withChannel channel with consumed := c.consumed ++ [word] }
    | (none, _) => c

/-- Actions one after the other. -/
def run (c : Contest) (moves : List Move) : Contest := moves.foldl move c

/-- Before anyone has made a call. -/
def opened (m : Machine) : Contest := ⟨⟨m, .run, .idle⟩, [], []⟩

/-- The run state. -/
def state (c : Contest) : RunState := c.thread.machine.state

/-- The number of instructions carried out. -/
def steps (c : Contest) : Nat := c.thread.machine.steps

/-- The words that the machine has written, those taken included. -/
def written (c : Contest) : List Word := c.consumed ++ c.thread.machine.output

/-- The number of halting calls that have told that they have halted the machine. -/
def wins (c : Contest) : Nat := c.halts.count (.answered true)

/-- What actions do to a contest whose machine is at rest. -/
structure Settles (c c' : Contest) : Prop where
  state : c'.state = c.state
  steps : c.steps ≤ c'.steps
  bounded : c'.steps + c'.thread.outstanding ≤ c.steps + c.thread.outstanding
  written : ∃ words, c'.written = c.written ++ words ∧ words.length + c'.thread.outstanding ≤ c.thread.outstanding

/-- The invariant of a contest. -/
structure Fair (c : Contest) : Prop where
  thread : c.thread.phase.Sound
  halts : ∀ attempt ∈ c.halts, attempt.Sound
  single : c.wins ≤ 1
  won : 0 < c.wins → c.state = .halted

theorem Settles.refl (c : Contest) : Settles c c where
  state := rfl
  steps := Nat.le_refl _
  bounded := Nat.le_refl _
  written := ⟨[], by simp, by simp⟩

theorem Settles.trans {c c' c'' : Contest} (first : Settles c c') (later : Settles c' c'') : Settles c c'' := by
  obtain ⟨words, written, few⟩ := first.written
  obtain ⟨more, written', few'⟩ := later.written
  refine ⟨later.state.trans first.state, Nat.le_trans first.steps later.steps, ?_, words ++ more, ?_, ?_⟩
  · exact Nat.le_trans later.bounded first.bounded
  · rw [written', written, List.append_assoc]
  · rw [List.length_append]
    omega

/-- Nothing that counts has changed. -/
theorem Settles.of_still {c c' : Contest} (state : c'.state = c.state) (steps : c'.steps = c.steps)
    (outstanding : c'.thread.outstanding = c.thread.outstanding) (written : c'.written = c.written) :
    Settles c c' where
  state := state
  steps := Nat.le_of_eq steps.symm
  bounded := by simp only [steps, outstanding, Nat.le_refl]
  written := ⟨[], by simp [written], by simp [outstanding]⟩

theorem call_settles (c : Contest) (drive : Drive) : Settles c (c.move (.call drive)) := by
  simp only [move, Thread.call]
  by_cases free : c.thread.phase.isFree
  · rw [if_pos free]
    refine .of_still rfl rfl ?_ rfl
    have idle : c.thread.phase.isCommitted = false := by
      unfold Thread.Phase.isFree at free
      split at free
      · next phase =>
        rw [phase]
        rfl
      · next phase =>
        rw [phase]
        rfl
      · cases free
    simp [Thread.outstanding, idle]
  · rw [if_neg free]
    exact .refl c

/-- A word of output that is taken is the first of those queued. -/
theorem take_cases (c : Contest) :
    c.move .take = c ∨
    ∃ word channel, c.move .take = { c.withChannel channel with consumed := c.consumed ++ [word] } ∧
      c.thread.machine.channel.output.toList = word :: channel.output.toList ∧ channel.state = c.state := by
  simp only [move, Channel.tryConsume, Channel.pop?]
  cases front : c.thread.machine.channel.queued .output with
  | nil => exact .inl rfl
  | cons word rest => exact .inr ⟨word, c.thread.machine.channel.withQueued .output rest, rfl, front, rfl⟩

/-- Taking a word of output takes nothing from what has been written. -/
theorem take_settles (c : Contest) : Settles c (c.move .take) := by
  rcases take_cases c with idle | ⟨word, channel, taken, output, state⟩
  · rw [idle]
    exact .refl c
  · rw [taken]
    refine .of_still state rfl rfl ?_
    simp only [written, output, withChannel, Machine.output, List.append_assoc, List.singleton_append]

theorem work_settles {c : Contest} (fair : c.Fair) (atRest : c.state.isTerminal) (late : Bool) :
    Settles c (c.move (.work late)) := by
  have settles := Thread.step_settles fair.thread atRest late
  obtain ⟨words, written, few⟩ := settles.written
  refine ⟨settles.state, settles.steps, settles.bounded, words, ?_, few⟩
  simp only [move, Contest.written, written, List.append_assoc]

theorem contend_settles {c : Contest} (fair : c.Fair) (atRest : c.state.isTerminal) (i : Nat) :
    Settles c (c.move (.contend i)) := by
  simp only [move]
  cases found : c.halts[i]? with
  | none => exact .refl c
  | some attempt =>
    have sound := fair.halts attempt (List.mem_of_getElem? found)
    obtain ⟨attempt', stepped⟩ := Halting.step_of_terminal (c := c.thread.machine.channel) sound atRest
    simp only [stepped]
    exact .of_still rfl rfl rfl rfl

/-- An action of any party on a machine at rest. -/
theorem move_settles {c : Contest} (fair : c.Fair) (atRest : c.state.isTerminal) (move : Move) :
    Settles c (c.move move) := by
  cases move with
  | call drive => exact call_settles c drive
  | work late => exact work_settles fair atRest late
  | challenge | feed word => exact .of_still rfl rfl rfl rfl
  | contend i => exact contend_settles fair atRest i
  | take => exact take_settles c

/-! ## Fairness -/

theorem opened_fair (m : Machine) : (opened m).Fair where
  thread := trivial
  halts := nofun
  single := Nat.zero_le 1
  won := nofun

/-- An action that no halting call takes. -/
theorem Fair.of_others {c c' : Contest} (fair : c.Fair) (thread : c'.thread.phase.Sound)
    (halts : ∀ attempt ∈ c'.halts, attempt.Sound) (wins : c'.wins = c.wins)
    (rests : c.state.isTerminal → c'.state = c.state) : c'.Fair where
  thread := thread
  halts := halts
  single := by
    rw [wins]
    exact fair.single
  won won := by
    have halted := fair.won (wins ▸ won)
    rw [rests (by rw [halted]; rfl), halted]

/-- How many halting calls have won is told by the one that acts. -/
theorem count_set {halts : List Halting} {i : Nat} (inside : i < halts.length) (attempt : Halting) :
    (halts.set i attempt).count (.answered true) + (if halts[i] = .answered true then 1 else 0) =
      halts.count (.answered true) + (if attempt = .answered true then 1 else 0) := by
  have counted : (if halts[i] = .answered true then 1 else 0) ≤ halts.count (.answered true) := by
    split
    · next won => exact List.count_pos_iff.mpr (won ▸ List.getElem_mem inside)
    · exact Nat.zero_le _
  simp only [List.count_set inside, beq_iff_eq]
  omega

/-- A halting call that acts either has won before and after or neither, or it is the first to win. -/
theorem Fair.contend {c : Contest} (fair : c.Fair) (i : Nat) : (c.move (.contend i)).Fair := by
  cases found : c.halts[i]? with
  | none =>
    have idle : c.move (.contend i) = c := by simp only [Contest.move, found]
    rw [idle]
    exact fair
  | some attempt =>
    obtain ⟨inside, here⟩ := List.getElem?_eq_some_iff.mp found
    have sound := fair.halts attempt (List.mem_of_getElem? found)
    have counted (attempt' : Halting) := count_set inside attempt'
    have kept (attempt' : Halting) (sound' : attempt'.Sound) : ∀ other ∈ c.halts.set i attempt', other.Sound := by
      intro other member
      rcases List.mem_or_eq_of_mem_set member with old | rfl
      · exact fair.halts other old
      · exact sound'
    rw [here] at counted
    rcases Halting.step_cases sound c.thread.machine.channel with
      ⟨attempt', stepped, sound', same⟩ | ⟨live, unwon, stepped⟩
    · have moved : c.move (.contend i) = { c with halts := c.halts.set i attempt' } := by
        simp only [Contest.move, found, stepped]
        rfl
      rw [moved]
      refine fair.of_others fair.thread (kept attempt' sound') ?_ fun _ => rfl
      have counted' := counted attempt'
      simp only [same] at counted'
      exact Nat.add_right_cancel counted'
    · have moved : c.move (.contend i) =
          { c.withChannel { c.thread.machine.channel with state := .halted } with
            halts := c.halts.set i (.answered true) } := by
        simp only [Contest.move, found, stepped]
      have unhalted : c.wins = 0 := by
        refine Nat.eq_zero_of_not_pos fun won => ?_
        have halted : c.thread.machine.channel.state = .halted := fair.won won
        rw [halted] at live
        cases live
      have first : (c.halts.set i (.answered true)).count (.answered true) = 1 := by
        have counted' := counted (.answered true)
        rw [if_neg unwon, if_pos rfl] at counted'
        exact counted'.trans (congrArg (· + 1) unhalted)
      rw [moved]
      exact ⟨fair.thread, kept (.answered true) trivial, Nat.le_of_eq first, fun _ => rfl⟩

/-- Every action keeps the contest fair. -/
theorem Fair.move {c : Contest} (fair : c.Fair) (move : Move) : (c.move move).Fair := by
  have rests : c.state.isTerminal → (c.move move).state = c.state := fun atRest =>
    (move_settles fair atRest move).state
  cases move with
  | call drive =>
    refine fair.of_others ?_ fair.halts rfl rests
    simp only [Contest.move, Thread.call]
    split
    · exact Thread.sound_first drive
    · exact fair.thread
  | work late => exact fair.of_others (Thread.step_sound fair.thread late) fair.halts rfl rests
  | challenge =>
    refine fair.of_others fair.thread ?_ ?_ rests
    · intro attempt member
      rcases List.mem_append.mp member with old | new
      · exact fair.halts attempt old
      · rw [List.mem_singleton.mp new]
        trivial
    · simp [wins, Contest.move]
  | contend i => exact fair.contend i
  | feed word => exact fair.of_others fair.thread fair.halts rfl rests
  | take =>
    rcases take_cases c with idle | ⟨word, channel, taken, -, -⟩
    · rw [idle]
      exact fair
    · rw [taken] at rests ⊢
      exact fair.of_others fair.thread fair.halts rfl rests

/-! ## Whole contests -/

theorem run_fair {c : Contest} (fair : c.Fair) (moves : List Move) : (c.run moves).Fair := by
  induction moves generalizing c with
  | nil => exact fair
  | cons move moves ih => exact ih (fair.move move)

/-- However long the parties go on with a machine at rest. -/
theorem run_settles {c : Contest} (fair : c.Fair) (atRest : c.state.isTerminal) (moves : List Move) :
    Settles c (c.run moves) := by
  induction moves generalizing c with
  | nil => exact .refl c
  | cons move moves ih =>
    have first := move_settles fair atRest move
    have atRest' : (c.move move).state.isTerminal := first.state ▸ atRest
    exact first.trans (ih (fair.move move) atRest')

/-- At any point of a contest, and however it goes on from there: a machine at rest stays as it is; at most one halting
    call has halted it, and none if it has ended; and once one has, the machine completes at most one instruction more,
    which writes at most one word, and none at all unless the thread has passed its last look at the run state. -/
theorem arbitrated (m : Machine) (before : List Move) {c : Contest} (reached : (opened m).run before = c)
    (after : List Move) {c' : Contest} (continued : c.run after = c') :
    (c.state.isTerminal → c'.state = c.state) ∧
    c'.wins ≤ 1 ∧
    (c'.state = .ended → c'.wins = 0) ∧
    (0 < c.wins →
      (c.steps ≤ c'.steps ∧ c'.steps ≤ c.steps + 1) ∧
      (∃ words, c'.written = c.written ++ words ∧ words.length ≤ 1) ∧
      (c.thread.phase.isCommitted = false → c'.steps = c.steps ∧ c'.written = c.written)) := by
  have fair : c.Fair := reached ▸ run_fair (opened_fair m) before
  have fair' : c'.Fair := continued ▸ run_fair fair after
  have settles (atRest : c.state.isTerminal) : Settles c c' := continued ▸ run_settles fair atRest after
  refine ⟨fun atRest => (settles atRest).state, fair'.single, ?_, ?_⟩
  · intro ended
    refine Nat.eq_zero_of_not_pos fun won => ?_
    cases ended.symm.trans (fair'.won won)
  · intro won
    have atRest : c.state.isTerminal := by
      rw [fair.won won]
      rfl
    obtain ⟨-, grown, bounded, words, written, few⟩ := settles atRest
    have single := c.thread.outstanding_le_one
    refine ⟨⟨grown, by omega⟩, ⟨words, written, by omega⟩, ?_⟩
    intro free
    have none : c.thread.outstanding = 0 := by
      unfold Thread.outstanding
      rw [free]
      rfl
    obtain rfl : words = [] := List.length_eq_zero_iff.mp (by omega)
    rw [List.append_nil] at written
    exact ⟨by omega, written⟩

/-- Two parties halt a machine that is about to write its first word. One of them succeeds; the word is still written,
    and no other. -/
theorem arbitrated_duel :
    let before : List Move := [.call .run, .work false, .work false, .challenge, .challenge, .contend 0, .contend 1,
      .contend 1, .contend 0]
    let after : List Move := List.replicate 8 (.work false) ++ [.take, .call .resume, .work false]
    let c := (opened (.ofProgram [104, 5, 104, 6, 99] {})).run before
    let c' := c.run after
    0 < c.wins ∧ c.halts = [.answered false, .answered true] ∧ c.state.isTerminal = true ∧ c'.state = c.state ∧
      c'.wins ≤ 1 ∧ c.steps = 0 ∧ c'.steps = 1 ∧ c'.written = [5] ∧ c'.steps ≤ c.steps + 1 := by
  intro before after c c'
  obtain ⟨rests, single, -, stops⟩ := arbitrated (.ofProgram [104, 5, 104, 6, 99] {}) before rfl after rfl
  have won : 0 < c.wins := by decide
  obtain ⟨⟨-, few⟩, -, -⟩ := stops won
  exact ⟨won, rfl, rfl, rests rfl, single, rfl, rfl, rfl, few⟩

end Contest

end IntegerMachine
