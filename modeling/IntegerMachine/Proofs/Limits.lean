import IntegerMachine.Proofs.Modes
import IntegerMachine.Proofs.Growth

/-!
# The limit of memory

The limit of memory only decides where an address is out of range. Two machines with one program, one of which may grow
to more cells than the other (`Machine.widen`), do the same as long as the lesser one does not fail for want of
memory: each access (`Memory.indifferent_load`, `Memory.indifferent_store`), each instruction
(`Instruction.indifferent_evaluate`), each cycle (`Machine.cycle_widen`), each call (`Command.answer_widen`) and all
calls one after another (`Dialogue.under_greater_limit`).
-/
namespace IntegerMachine

/-! ## Accesses and instructions -/

namespace Memory

/-- Memory with another limit. -/
def widen (limit : Nat) (mem : Memory) : Memory := { mem with limit }

/-- A computation under another limit. -/
def widenResult {α : Type} (limit : Nat) : EStateM.Result Fault Memory α → EStateM.Result Fault Memory α
  | .ok a mem => .ok a (mem.widen limit)
  | .error fault mem => .error fault (mem.widen limit)

/-- A computation that comes to the same under a greater limit, unless it finds an address out of range. -/
def Indifferent {α : Type} (x : EStateM Fault Memory α) : Prop :=
  ∀ mem limit, mem.limit ≤ limit →
    (∃ word mem', x mem = .error (.addressOutOfRange word) mem') ∨ x (mem.widen limit) = widenResult limit (x mem)

section
variable {α β : Type} {mem : Memory} {limit : Nat}

theorem indifferent_pure (a : α) : Indifferent (pure a : EStateM Fault Memory α) := fun _ _ _ => .inr rfl

theorem Indifferent.bind {x : EStateM Fault Memory α} {f : α → EStateM Fault Memory β} (first : Indifferent x)
    (grows : Growing x) (later : ∀ a, Indifferent (f a)) : Indifferent (x >>= f) := by
  intro mem limit le
  have kept := (grows mem).limit
  change (∃ word mem', EStateM.bind x f mem = .error (.addressOutOfRange word) mem') ∨
    EStateM.bind x f (mem.widen limit) = widenResult limit (EStateM.bind x f mem)
  unfold left at kept
  unfold EStateM.bind
  rcases first mem limit le with ⟨word, mem', refused⟩ | same
  · rw [refused]
    exact .inl ⟨word, mem', rfl⟩
  · rw [same]
    cases done : x mem with
    | ok a between =>
      rw [done] at kept
      exact later a between limit (kept ▸ le)
    | error fault between => exact .inr rfl

/-- Growth may reach the same cells, but for those that the lesser limit puts out of range. -/
theorem refusal?_widen (le : mem.limit ≤ limit) (address : Nat) :
    (∃ word, mem.refusal? address = some (.addressOutOfRange word)) ∨
      (mem.widen limit).refusal? address = mem.refusal? address := by
  unfold refusal?
  by_cases admitted : mem.admits address
  · have admitted' : (mem.widen limit).admits address := by
      simp only [admits, Bool.or_eq_true, decide_eq_true_eq] at admitted ⊢
      exact admitted.imp id fun inside => Nat.lt_of_lt_of_le inside le
    rw [if_pos admitted, if_pos admitted']
    exact .inr rfl
  · rw [if_neg admitted]
    exact .inl ⟨_, rfl⟩

theorem reach_widen (mem : Memory) (limit address : Nat) :
    (mem.widen limit).reach address = (mem.reach address).widen limit := by
  unfold reach
  by_cases inside : address < mem.size
  · rw [if_pos inside]
    exact if_pos inside
  · rw [if_neg inside]
    exact if_neg inside

theorem indifferent_readCell (address : Nat) : Indifferent (readCell address) := by
  intro mem limit le
  unfold readCell
  rcases refusal?_widen le address with ⟨word, refused⟩ | same
  · rw [refused]
    exact .inl ⟨word, mem, rfl⟩
  · rw [same]
    cases mem.refusal? address with
    | some fault => exact .inr rfl
    | none =>
      simp only [reach_widen]
      exact .inr rfl

theorem indifferent_poke (address : Nat) (value : Word) : Indifferent (poke address value) := by
  intro mem limit le
  unfold poke
  rcases refusal?_widen le address with ⟨word, refused⟩ | same
  · rw [refused]
    exact .inl ⟨word, mem, rfl⟩
  · rw [same]
    cases mem.refusal? address with
    | some fault => exact .inr rfl
    | none =>
      simp only [reach_widen]
      exact .inr rfl

theorem indifferent_load (a : Argument) (relativeBase : Word) : Indifferent (load a relativeBase) := by
  intro mem limit le
  unfold load
  cases a.effectiveAddress relativeBase with
  | none => exact .inr rfl
  | some word =>
    simp only
    cases address word with
    | ok address => exact indifferent_readCell address mem limit le
    | error fault => exact .inr rfl

theorem indifferent_store (a : Argument) (relativeBase value : Word) : Indifferent (store a relativeBase value) := by
  intro mem limit le
  unfold store
  cases a.effectiveAddress relativeBase with
  | none => exact .inr rfl
  | some word =>
    simp only
    cases address word with
    | ok address => exact indifferent_poke address value mem limit le
    | error fault => exact .inr rfl

end

end Memory

open Memory (Indifferent Growing indifferent_pure indifferent_load indifferent_store growing_load growing_store)

namespace Effect

theorem indifferent_combine (f : Word → Word → Word) (lhs rhs dest : Argument) (relativeBase : Word) :
    Indifferent (combine f lhs rhs dest relativeBase) := by
  refine (indifferent_load lhs relativeBase).bind (growing_load _ _) fun x => ?_
  refine (indifferent_load rhs relativeBase).bind (growing_load _ _) fun y => ?_
  exact (indifferent_store dest relativeBase (f x y)).bind (growing_store _ _ _) fun _ => indifferent_pure _

/-- The check of a jump looks at the size of memory, not at its limit. -/
theorem indifferent_jumpTo (target : Argument) (relativeBase : Word) : Indifferent (jumpTo target relativeBase) := by
  refine (indifferent_load target relativeBase).bind (growing_load _ _) fun word mem limit le => .inr ?_
  cases denotes : word.toSize? with
  | none => rfl
  | some address =>
    change (if address < mem.size then pure (jump address) else throw (.jumpOutOfBounds word) :
        EStateM Fault Memory Effect) (mem.widen limit) =
      Memory.widenResult limit ((if address < mem.size then pure (jump address) else throw (.jumpOutOfBounds word) :
        EStateM Fault Memory Effect) mem)
    split
    · rfl
    · rfl

theorem indifferent_jumpWhen (test : Word → Bool) (condition target : Argument) (relativeBase : Word) :
    Indifferent (jumpWhen test condition target relativeBase) := by
  refine (indifferent_load condition relativeBase).bind (growing_load _ _) fun x => ?_
  split
  · exact indifferent_jumpTo target relativeBase
  · exact indifferent_pure _

end Effect

theorem Instruction.indifferent_evaluate (i : Instruction) (relativeBase : Word) :
    Indifferent (i.evaluate relativeBase) := by
  cases i with
  | add | multiply | lessThan | equals => exact Effect.indifferent_combine _ _ _ _ relativeBase
  | jumpIfTrue | jumpIfFalse => exact Effect.indifferent_jumpWhen _ _ _ relativeBase
  | input | halt => exact indifferent_pure _
  | output source =>
    exact (indifferent_load source relativeBase).bind (growing_load _ _) fun _ => indifferent_pure _
  | adjustRelativeBase offset =>
    exact (indifferent_load offset relativeBase).bind (growing_load _ _) fun _ => indifferent_pure _

/-! ## Calls that come to the same -/

/-- A failure for want of memory: an address is out of range. -/
def OutOfRange {α : Type} (result : Except Failure α) : Prop :=
  ∃ program ip text word, result = .error (.faulted program ip text (.addressOutOfRange word))

theorem OutOfRange.of_error {α β : Type} {failure : Failure} (outOfRange : OutOfRange (.error failure : Except Failure α)) :
    OutOfRange (.error failure : Except Failure β) := by
  obtain ⟨program, ip, text, word, same⟩ := outOfRange
  cases same
  exact ⟨program, ip, text, word, rfl⟩

theorem not_outOfRange_ok {α : Type} (a : α) : ¬ OutOfRange (.ok a) := by
  rintro ⟨_, _, _, _, impossible⟩
  cases impossible

/-- The machine with another limit of memory. -/
def Machine.widen (limit : Nat) (m : Machine) : Machine :=
  { m with config := { m.config with maxMemory := limit }, memory := m.memory.widen limit }

/-- What a call comes to beside what it comes to under a greater limit: it fails for want of memory, or it is the same,
    and the greater limit stays the greater. -/
inductive Concurs {α : Type} (limit : Nat) : Option (Outcome α) → Option (Outcome α) → Prop
  | refused {o : Outcome α} {o' : Option (Outcome α)} (outOfRange : OutOfRange o.result) : Concurs limit (some o) o'
  | unanswered : Concurs limit none none
  | same (o : Outcome α) (le : o.machine.memory.limit ≤ limit) :
    Concurs limit (some o) (some (o.map (·.widen limit)))

theorem Concurs.after {α : Type} {limit : Nat} {o o' : Outcome α} (concurs : Concurs limit (some o) (some o'))
    (log : Array Event) :
    Concurs limit (some { o with events := log ++ o.events }) (some { o' with events := log ++ o'.events }) := by
  cases concurs with
  | refused outOfRange => exact .refused outOfRange
  | same _ le => exact .same { o with events := log ++ o.events } le

namespace Machine
variable {m : Machine} {limit : Nat}

/-! ## Cycles -/

theorem channel_widen (m : Machine) (limit : Nat) : (m.widen limit).channel = m.channel := rfl

theorem defaultInput_widen (m : Machine) (limit : Nat) :
    (m.widen limit).config.defaultInput = m.config.defaultInput := rfl

theorem mode_widen (m : Machine) (limit : Nat) : (m.widen limit).config.mode = m.config.mode := rfl

theorem dispatch_widen (le : m.memory.limit ≤ limit) :
    Concurs limit (some m.dispatch) (some (m.widen limit).dispatch) := by
  have fetched' : (m.widen limit).fetch = m.fetch := rfl
  cases fetched : m.fetch with
  | error fault =>
    rw [dispatch_of_unfetched fetched, dispatch_of_unfetched (fetched'.trans fetched)]
    exact .same _ le
  | ok i =>
    have grows := i.growing_evaluate m.relativeBase m.memory
    unfold Memory.left at grows
    rcases i.indifferent_evaluate m.relativeBase m.memory limit le with ⟨word, memory, refused⟩ | same
    · rw [dispatch_of_faulted fetched refused]
      exact .refused ⟨_, _, _, word, rfl⟩
    · cases evaluated : i.evaluate m.relativeBase m.memory with
      | ok effect memory =>
        rw [evaluated] at same grows
        rw [dispatch_of_evaluated fetched evaluated, dispatch_of_evaluated (fetched'.trans fetched) same]
        exact .same _ (grows.limit.trans_le le)
      | error fault memory =>
        rw [evaluated] at same grows
        rw [dispatch_of_faulted fetched evaluated, dispatch_of_faulted (fetched'.trans fetched) same]
        exact .same _ (grows.limit.trans_le le)

/-- Reading input does not look at memory. -/
theorem readInput_widen (m : Machine) (limit : Nat) :
    (m.widen limit).readInput = (m.readInput.1, m.readInput.2.widen limit) := by
  unfold readInput
  rw [channel_widen, defaultInput_widen, mode_widen]
  cases popped : m.channel.pop? .input with
  | some front => rfl
  | none =>
    simp only [Channel.wait_of_none popped]
    cases m.config.defaultInput with
    | some word => rfl
    | none =>
      cases m.config.mode with
      | cooperative => rfl
      | worker => cases m.channel.denial .input <;> rfl

theorem receive_widen (le : m.memory.limit ≤ limit) (start : Nat) (i : Instruction) (dest : Argument) (word : Word) :
    OutOfRange (m.receive start i dest word).1 ∨
      (m.widen limit).receive start i dest word =
        ((m.receive start i dest word).1, (m.receive start i dest word).2.widen limit) := by
  cases m with | mk config memory ip relativeBase channel steps outputCount lastOutput =>
  unfold receive
  simp only [widen]
  rcases indifferent_store dest relativeBase word memory limit le with ⟨refusal, memory', refused⟩ | same
  · rw [refused]
    exact .inl ⟨_, _, _, refusal, rfl⟩
  · rw [same]
    cases Memory.store dest relativeBase word memory <;> exact .inr rfl

theorem settle_widen (le : m.memory.limit ≤ limit) (p : Pending) (events : Array Event) :
    Concurs limit (some (m.settle p events)) (some ((m.widen limit).settle p events)) := by
  have kept := (m.settle_grows p events).limit.trans_le le
  suffices same : OutOfRange (m.settle p events).result ∨
      (m.widen limit).settle p events = (m.settle p events).map (·.widen limit) by
    rcases same with outOfRange | same
    · exact .refused outOfRange
    · rw [same]
      exact .same _ kept
  unfold settle
  cases effect : p.effect with
  | advance | jump | rebase | output => exact .inr rfl
  | halt =>
    simp only [finish, widen]
    cases m.channel.transition? .running .ended <;> exact .inr rfl
  | input dest =>
    obtain ⟨input, left⟩ := m.readInput_machine
    simp only [readInput_widen]
    generalize m.readInput = read at left ⊢
    rcases read with ⟨failure | _ | word, m'⟩
    · exact .inr rfl
    · simp only [suspend, widen]
      cases m'.channel.transition? .running .awaitingInput <;> exact .inr rfl
    · obtain rfl : m' = m.withInput input := left
      have received := receive_widen (m := m.withInput input) le p.start p.instruction dest word
      simp only
      generalize (m.withInput input).receive p.start p.instruction dest word = o at received ⊢
      rcases o with ⟨failure | _, m''⟩
      · rcases received with outOfRange | same
        · exact .inl outOfRange.of_error
        · rw [same]
          exact .inr rfl
      · rcases received with outOfRange | same
        · exact absurd outOfRange (not_outOfRange_ok _)
        · rw [same]
          exact .inr rfl

/-- A cycle does the same under a greater limit, unless it finds an address out of range. -/
theorem cycle_widen (le : m.memory.limit ≤ limit) : Concurs limit (some m.cycle) (some (m.widen limit).cycle) := by
  have dispatched := dispatch_widen le
  unfold cycle
  generalize m.dispatch = o at dispatched ⊢
  generalize (m.widen limit).dispatch = o' at dispatched ⊢
  rcases o with ⟨failure | p, k, events⟩
  · cases dispatched with
    | refused outOfRange => exact .refused outOfRange.of_error
    | same _ le => exact .same _ le
  · cases dispatched with
    | refused outOfRange => exact absurd outOfRange (not_outOfRange_ok p)
    | same _ le => exact settle_widen le p events

/-! ## Calls that drive the machine -/

theorem execute_widen (le : m.memory.limit ≤ limit) (fuel : Nat) (log : Array Event) :
    Concurs limit (execute fuel m log) (execute fuel (m.widen limit) log) := by
  induction fuel generalizing m log with
  | zero => exact .unanswered
  | succ fuel ih =>
    by_cases running : m.state = .running
    · have cycled := cycle_widen le
      rw [execute_of_running running, execute_of_running (m := m.widen limit) running]
      generalize m.cycle = o at cycled ⊢
      generalize (m.widen limit).cycle = o' at cycled ⊢
      rcases o with ⟨failure | step, k, events⟩
      · cases cycled with
        | refused outOfRange => exact .refused outOfRange.of_error
        | same _ le => exact .same _ le
      · cases cycled with
        | refused outOfRange => exact absurd outOfRange (not_outOfRange_ok step)
        | same _ le => exact ih le _
    · rw [execute_of_stopped running, execute_of_stopped (m := m.widen limit) running]
      exact .same _ le

theorem run_widen (le : m.memory.limit ≤ limit) (fuel : Nat) :
    Concurs limit (m.run fuel) ((m.widen limit).run fuel) := by
  unfold run start
  rw [channel_widen]
  cases m.channel.transition? .initialising .running with
  | none => exact .same _ le
  | some channel => exact execute_widen (m := { m with ip := 0, relativeBase := 0, channel }) le fuel _

theorem resume_widen (le : m.memory.limit ≤ limit) (fuel : Nat) :
    Concurs limit (m.resume fuel) ((m.widen limit).resume fuel) := by
  have same : (m.widen limit).state = m.state := rfl
  unfold resume
  rw [same, channel_widen]
  cases m.state with
  | initialising => exact run_widen le fuel
  | running => exact execute_widen le fuel _
  | awaitingInput =>
    cases m.channel.transition? .awaitingInput .running with
    | none => exact .same _ le
    | some channel => exact execute_widen (m := { m with channel }) le fuel _
  | ended | halted => exact .same _ le

theorem step_widen (le : m.memory.limit ≤ limit) : Concurs limit (some m.step) (some (m.widen limit).step) := by
  have same : (m.widen limit).state = m.state := rfl
  unfold step start
  rw [same, channel_widen]
  cases m.state with
  | initialising =>
    cases m.channel.transition? .initialising .running with
    | none => exact .same _ le
    | some channel => exact (cycle_widen (m := { m with ip := 0, relativeBase := 0, channel }) le).after _
  | running => exact cycle_widen le
  | awaitingInput =>
    cases m.channel.transition? .awaitingInput .running with
    | none => exact .same _ le
    | some channel => exact cycle_widen (m := { m with channel }) le
  | ended | halted => exact .same _ le

theorem runWith_widen (le : m.memory.limit ≤ limit) (fuel : Nat) (words : List Word) :
    Concurs limit (m.runWith fuel words) ((m.widen limit).runWith fuel words) := by
  unfold runWith
  rw [channel_widen]
  cases m.channel.feedAll words with
  | error failure => exact .same _ le
  | ok channel =>
    have resumed := resume_widen (m := { m with channel }) le fuel
    simp only [show { m.widen limit with channel } = widen limit { m with channel } from rfl]
    generalize resume fuel { m with channel } = o at resumed ⊢
    generalize resume fuel (widen limit { m with channel }) = o' at resumed ⊢
    cases resumed with
    | unanswered => exact .unanswered
    | @refused o _ outOfRange =>
      rcases o with ⟨failure | state, k, events⟩
      · exact .refused outOfRange.of_error
      · exact absurd outOfRange (not_outOfRange_ok state)
    | same o le =>
      rcases o with ⟨failure | state, k, events⟩
      · exact .same _ le
      · exact .same _ le

theorem halt_widen (le : m.memory.limit ≤ limit) (silent : Bool) :
    Concurs limit (some (m.halt silent)) (some ((m.widen limit).halt silent)) := by
  unfold halt
  rw [channel_widen]
  rcases m.channel.halt with ⟨_ | _, channel⟩
  · exact .same _ le
  · exact .same _ le

theorem poke_widen (le : m.memory.limit ≤ limit) (address : Nat) (word : Word) :
    Concurs limit (some (m.poke address word)) (some ((m.widen limit).poke address word)) := by
  have grows := Memory.growing_poke address word m.memory
  unfold Memory.left at grows
  unfold poke
  by_cases made : m.state = .initialising
  · rw [if_pos made, if_pos (show (m.widen limit).state = .initialising from made)]
    rcases Memory.indifferent_poke address word m.memory limit le with ⟨refusal, memory, refused⟩ | same
    · rw [refused]
      exact .refused ⟨_, _, _, refusal, rfl⟩
    · rw [show (m.widen limit).memory = m.memory.widen limit from rfl, same]
      cases poked : Memory.poke address word m.memory with
      | ok previous memory =>
        rw [poked] at grows
        exact .same _ (grows.limit.trans_le le)
      | error fault memory =>
        rw [poked] at grows
        exact .same _ (grows.limit.trans_le le)
  · rw [if_neg made, if_neg (show (m.widen limit).state ≠ .initialising from made)]
    exact .same _ le

end Machine

/-! ## Calls one after another -/

/-- The calls on a machine and on its channel, by which a single party drives it. -/
inductive Command where
  | run
  | resume
  | step
  | runWith (words : List Word)
  | halt (silent : Bool)
  | poke (address : Nat) (word : Word)
  | channel (call : ChannelCall)

/-- The outcome of a call whose result is put as a reply. -/
def Outcome.replies {α : Type} (f : α → Reply) (o : Outcome α) : Outcome Reply := { o with result := o.result.map f }

/-- What a call comes to. A call that drives the machine is given a bound on its cycles. -/
def Command.answer (fuel : Nat) (m : Machine) : Command → Option (Outcome Reply)
  | .run => (m.run fuel).map (·.replies .state)
  | .resume => (m.resume fuel).map (·.replies .state)
  | .step => some (m.step.replies .step)
  | .runWith words => (m.runWith fuel words).map (·.replies .words)
  | .halt silent => some ((m.halt silent).replies .flag)
  | .poke address word => some ((m.poke address word).replies .word)
  | .channel call => some ⟨(call.answer m.channel).1, { m with channel := (call.answer m.channel).2 }, #[]⟩

theorem Concurs.replies {α : Type} {limit : Nat} {o o' : Option (Outcome α)} (concurs : Concurs limit o o') (f : α → Reply) :
    Concurs limit (o.map (·.replies f)) (o'.map (·.replies f)) := by
  cases concurs with
  | refused outOfRange =>
    obtain ⟨program, ip, text, word, failed⟩ := outOfRange
    exact .refused ⟨program, ip, text, word, by simp only [Outcome.replies, failed]; rfl⟩
  | unanswered => exact .unanswered
  | same o le => exact .same _ le

/-- A call comes to the same under a greater limit, unless it fails for want of memory. -/
theorem Command.answer_widen {m : Machine} {limit : Nat} (le : m.memory.limit ≤ limit) (fuel : Nat)
    (command : Command) : Concurs limit (command.answer fuel m) (command.answer fuel (m.widen limit)) := by
  cases command with
  | run => exact (Machine.run_widen le fuel).replies _
  | resume => exact (Machine.resume_widen le fuel).replies _
  | step => exact (Machine.step_widen le).replies .step
  | runWith words => exact (Machine.runWith_widen le fuel words).replies _
  | halt silent => exact (Machine.halt_widen le silent).replies .flag
  | poke address word => exact (Machine.poke_widen le address word).replies .word
  | channel call => exact .same _ le

/-- Calls made on a machine one after another, with what each has come to, and the machine they leave. -/
inductive Dialogue (m : Machine) : List (Command × Except Failure Reply) → Machine → Prop
  | opened : Dialogue m [] m
  | call {calls : List (Command × Except Failure Reply)} {k : Machine} {o : Outcome Reply}
      (before : Dialogue m calls k) (command : Command) (fuel : Nat) (answered : command.answer fuel k = some o) :
      Dialogue m (calls ++ [(command, o.result)]) o.machine

namespace Dialogue
variable {m n : Machine} {calls : List (Command × Except Failure Reply)} {limit : Nat}

theorem widened (le : m.memory.limit ≤ limit) (dialogue : Dialogue m calls n)
    (inRange : ∀ call ∈ calls, ¬ OutOfRange call.2) :
    Dialogue (m.widen limit) calls (n.widen limit) ∧ n.memory.limit ≤ limit := by
  -- Each call is made with the bound it was given on the lesser machine: the other needs as many cycles.
  induction dialogue with
  | opened => exact ⟨.opened, le⟩
  | @call calls k o before command fuel answered ih =>
    obtain ⟨same, le⟩ := ih fun call earlier => inRange call (List.mem_append_left _ earlier)
    have concurs := command.answer_widen le fuel
    rw [answered] at concurs
    generalize answered' : command.answer fuel (k.widen limit) = o' at concurs
    cases concurs with
    | refused outOfRange => exact absurd outOfRange (inRange _ (List.mem_append_right _ List.mem_cons_self))
    | same _ le => exact ⟨same.call command fuel answered', le⟩

/-- The limit of memory only decides where an address is out of range. Take two machines with a program, one of which
    may grow to more cells than the other, and any calls on the lesser one of which none has failed for want of
    memory. The same calls on the other machine have come to the same, and the machines are equal but for the limit. So
    it is with any further call, with any bound on its cycles, unless it fails for want of memory on the lesser
    machine. -/
theorem under_greater_limit {program : List Word} {config : Config} (le : config.maxMemory ≤ limit)
    (dialogue : Dialogue (.ofProgram program config) calls n) (inRange : ∀ call ∈ calls, ¬ OutOfRange call.2) :
    Dialogue (.ofProgram program { config with maxMemory := limit }) calls (n.widen limit) ∧
    ∀ command fuel, (∃ o, Command.answer fuel n command = some o ∧ OutOfRange o.result) ∨
      Command.answer fuel (n.widen limit) command = (Command.answer fuel n command).map (·.map (·.widen limit)) := by
  obtain ⟨same, le⟩ := dialogue.widened le inRange
  refine ⟨same, fun command fuel => ?_⟩
  have concurs := command.answer_widen le fuel
  generalize command.answer fuel n = o at concurs ⊢
  generalize command.answer fuel (n.widen limit) = o' at concurs ⊢
  cases concurs with
  | refused outOfRange => exact .inl ⟨_, rfl, outOfRange⟩
  | unanswered => exact .inr rfl
  | same o le => exact .inr rfl

/-- A program that adds two words and writes the sum, after a patch of the first. -/
theorem under_greater_limit_sum :
    ∃ n, Dialogue (.ofProgram [1101, 2, 3, 50, 4, 50, 99] { maxMemory := 51 })
        [(.poke 1 4, .ok (.word 2)), (.run, .ok (.state .ended)), (.channel .drain, .ok (.words [7]))] n ∧
      n.memory.size = 51 ∧
      Dialogue (.ofProgram [1101, 2, 3, 50, 4, 50, 99] { maxMemory := 1000 })
        [(.poke 1 4, .ok (.word 2)), (.run, .ok (.state .ended)), (.channel .drain, .ok (.words [7]))]
        (n.widen 1000) := by
  obtain ⟨n, dialogue, size⟩ : ∃ n, Dialogue (.ofProgram [1101, 2, 3, 50, 4, 50, 99] { maxMemory := 51 })
      [(.poke 1 4, .ok (.word 2)), (.run, .ok (.state .ended)), (.channel .drain, .ok (.words [7]))] n ∧
      n.memory.size = 51 := by
    have made : Dialogue (.ofProgram [1101, 2, 3, 50, 4, 50, 99] { maxMemory := 51 }) [] _ := .opened
    have ran := (made.call (.poke 1 4) 0 rfl).call .run 9 rfl
    exact ⟨_, ran.call (.channel .drain) 0 rfl, rfl⟩
  have le : Config.maxMemory { maxMemory := 51 } ≤ 1000 := by decide
  refine ⟨n, dialogue, size, (under_greater_limit le dialogue ?_).1⟩
  rintro call member ⟨_, _, _, _, failed⟩
  simp only [List.mem_cons, List.not_mem_nil, or_false] at member
  rcases member with rfl | rfl | rfl <;> cases failed

end Dialogue

end IntegerMachine
