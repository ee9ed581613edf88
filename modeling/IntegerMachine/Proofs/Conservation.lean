import IntegerMachine.Proofs.Arrangement
import IntegerMachine.Proofs.Transcript

/-!
# The words of a lockstep

What passes while a lockstep runs, written down in order (`book`): the words that a machine takes and writes when it
is resumed, and those that are forwarded from its output. The book balances at whatever point the lockstep comes back,
after a fault as well (`run_balances`): no word is lost on the way, none is made up, and none is forwarded but along a
link. Only words for a machine at rest are dropped, and such a machine stays at rest.
-/
namespace IntegerMachine.Lockstep
open Machine (Exchanges)
open Dataflow (shed sent)

/-- What passes at one point of a lockstep. -/
inductive Entry
  /-- A machine has been resumed, and has taken and written some words. -/
  | resumed (index : Nat) (taken written : List Word)
  /-- Words have been moved off the output of a machine and fed to the sink, or dropped if there is none. -/
  | forwarded (source : Nat) (words : List Word) (sink : Option Nat)
  deriving DecidableEq

/-- The machine that words for `target` are fed to: that one, unless it is at rest. -/
def sinkOf (machines : List Machine) (target : Nat) : Option Nat :=
  match machines[target]? with
  | none => none
  | some peer => if peer.state.isTerminal then none else some target

/-- What passes in the turn of one machine. Nothing is forwarded after a fault. -/
def turnBook (fuel : Nat) (ls : Links) (machines : List Machine) (index : Nat) : List Entry :=
  match machines[index]? with
  | none => []
  | some m =>
    if m.state.isTerminal then []
    else
      .resumed index (m.took fuel) (m.wrote fuel) ::
        match m.resume fuel, ls[index]?.join with
        | some ⟨.ok _, m, _⟩, some target => [.forwarded index m.output (sinkOf (machines.set index m) target)]
        | _, _ => []

/-- What passes in the turns of the machines with the given indices, up to the first that fails. -/
def turnsBook (fuel : Nat) (ls : Links) : List Nat → List Machine → List Entry
  | [], _ => []
  | index :: rest, machines =>
    turnBook fuel ls machines index ++
      match turn fuel ls machines index with
      | some ⟨.ok _, machines, _⟩ => turnsBook fuel ls rest machines
      | _ => []

/-- What passes in a round. -/
def roundBook (fuel : Nat) (ls : Links) (machines : List Machine) : List Entry :=
  turnsBook fuel ls (List.range machines.length) machines

/-- What passes in rounds, up to one that is silent or fails. -/
def roundsBook (cycles : Nat) (ls : Links) : Nat → List Machine → List Entry
  | 0, _ => []
  | fuel + 1, machines =>
    roundBook cycles ls machines ++
      match round cycles ls machines #[] with
      | some ⟨.ok true, machines, _⟩ => roundsBook cycles ls fuel machines
      | _ => []

/-- What passes while a lockstep runs. -/
def book (fuel : Nat) (ls : Links) (machines : List Machine) : List Entry := roundsBook fuel ls fuel machines

/-! ## Views of a book -/

namespace Entry

/-- The words that machine `i` takes off its input. -/
def taken (i : Nat) : Entry → List Word
  | resumed index words _ => if index = i then words else []
  | forwarded .. => []

/-- The words that machine `i` writes. -/
def written (i : Nat) : Entry → List Word
  | resumed index _ words => if index = i then words else []
  | forwarded .. => []

/-- The words forwarded from machine `i`. -/
def moved (i : Nat) : Entry → List Word
  | resumed .. => []
  | forwarded source words _ => if source = i then words else []

/-- The words forwarded to machine `i`. -/
def delivered (i : Nat) : Entry → List Word
  | resumed .. => []
  | forwarded _ words sink => if sink = some i then words else []

/-- The machine that is fed. -/
def sink : Entry → Option Nat
  | resumed .. => none
  | forwarded _ _ sink => sink

/-- Words are forwarded along the link of their machine, and dropped only if the peer is at rest. -/
def Along (ls : Links) (machines : List Machine) : Entry → Prop
  | resumed .. => True
  | forwarded source _ sink =>
    ∃ target, ls[source]?.join = some target ∧
      (sink = some target ∨ sink = none ∧ ∃ m, machines[target]? = some m ∧ m.state.isTerminal)

/-- Once words for a machine have been dropped, it is fed nothing any more. -/
def Precedes (ls : Links) (e later : Entry) : Prop :=
  ∀ source words target, e = forwarded source words none → ls[source]?.join = some target →
    later.sink ≠ some target

end Entry

variable {n : Nat} {target : Fin n → Option (Fin n)} {group before between after : Fin n → Machine}
  {i j : Fin n} {m : Machine} {entries more : List Entry} {taken written : List Word}

/-- The entries account for what has become of the machines of a group. -/
structure Balances (target : Fin n → Option (Fin n)) (before after : Fin n → Machine) (entries : List Entry) :
    Prop where
  output : ∀ k : Fin n,
    (before k).output ++ entries.flatMap (Entry.written k) = entries.flatMap (Entry.moved k) ++ (after k).output
  input : ∀ k : Fin n, entries.flatMap (Entry.taken k) ++ (after k).channel.input =
    (before k).channel.input ++ entries.flatMap (Entry.delivered k)
  /-- A machine at rest stays so, and is not fed. -/
  rest : ∀ k, (before k).state.isTerminal → (after k).state.isTerminal
  idle : ∀ k : Fin n, (before k).state.isTerminal → ∀ e ∈ entries, e.sink ≠ some k.val
  along : ∀ e ∈ entries, e.Along (links target) (List.ofFn after)
  ordered : entries.Pairwise (Entry.Precedes (links target))

theorem Entry.Along.of_rest {e : Entry} (along : e.Along (links target) (List.ofFn between))
    (rest : ∀ k, (between k).state.isTerminal → (after k).state.isTerminal) :
    e.Along (links target) (List.ofFn after) := by
  cases e with
  | resumed => trivial
  | forwarded source words sink =>
    obtain ⟨target, linked, fed | ⟨dropped, m, found, atRest⟩⟩ := along
    · exact ⟨target, linked, .inl fed⟩
    · obtain ⟨k, rfl, rfl⟩ := exists_of_ofFn_getElem? found
      exact ⟨k, linked, .inr ⟨dropped, after k, ofFn_getElem? after k, rest k atRest⟩⟩

namespace Balances

theorem refl (target : Fin n → Option (Fin n)) (group : Fin n → Machine) : Balances target group group [] where
  output _ := List.append_nil _
  input _ := (List.append_nil _).symm
  rest _ atRest := atRest
  idle _ _ := nofun
  along := nofun
  ordered := .nil

theorem trans (first : Balances target before between entries) (second : Balances target between after more) :
    Balances target before after (entries ++ more) where
  output k := by
    rw [List.flatMap_append, List.flatMap_append, ← List.append_assoc, first.output, List.append_assoc,
      second.output, List.append_assoc]
  input k := by
    rw [List.flatMap_append, List.flatMap_append, ← List.append_assoc, ← first.input, List.append_assoc,
      second.input, List.append_assoc]
  rest k atRest := second.rest k (first.rest k atRest)
  idle k atRest e member := by
    rcases List.mem_append.mp member with member | member
    · exact first.idle k atRest e member
    · exact second.idle k (first.rest k atRest) e member
  along e member := by
    rcases List.mem_append.mp member with member | member
    · exact (first.along e member).of_rest second.rest
    · exact second.along e member
  ordered := by
    refine List.pairwise_append.mpr ⟨first.ordered, second.ordered, ?_⟩
    rintro _ member later member' source words sink rfl linked
    -- The words were dropped since their machine had come to rest, and it is at rest from then on.
    obtain ⟨sink', linked', fed | ⟨-, m, found, atRest⟩⟩ := first.along _ member
    · cases fed
    · cases linked.symm.trans linked'
      obtain ⟨k, rfl, rfl⟩ := exists_of_ofFn_getElem? found
      exact second.idle k atRest later member'

/-- A machine that is resumed. -/
theorem of_exchanges (live : (group i).state.isTerminal = false) (exchanges : Exchanges (group i) taken written m) :
    Balances target group (Function.update group i m) [.resumed i taken written] where
  output k := by
    by_cases own : k = i
    · subst own
      simp [Entry.written, Entry.moved, exchanges.output]
    · simp [Entry.written, Entry.moved, Function.update_of_ne own, Fin.val_inj, Ne.symm own]
  input k := by
    by_cases own : k = i
    · subst own
      simp [Entry.taken, Entry.delivered, exchanges.input]
    · simp [Entry.taken, Entry.delivered, Function.update_of_ne own, Fin.val_inj, Ne.symm own]
  rest k atRest := by
    by_cases own : k = i
    · subst own
      cases live.symm.trans atRest
    · rw [Function.update_of_ne own]
      exact atRest
  idle k _ := by simp [Entry.sink]
  along := by simp [Entry.Along]
  ordered := List.pairwise_singleton _ _

end Balances

/-! ## Forwarding -/

/-- Taking the output of a machine changes neither its state nor its input. -/
theorem shed_frame (target : Fin n → Option (Fin n)) (i : Fin n) (m : Machine) :
    (shed target i m).state = m.state ∧ (shed target i m).channel.input = m.channel.input := by
  unfold shed
  split
  · exact ⟨rfl, rfl⟩
  · exact ⟨rfl, rfl⟩

theorem handOn_update (target : Fin n → Option (Fin n)) (i : Fin n) (m : Machine) (group : Fin n → Machine) :
    handOn target i m (Function.update group i m) = handOn target i m group := by
  funext k
  unfold handOn
  by_cases own : k = i
  · rw [if_pos own, if_pos own]
  · rw [if_neg own, if_neg own, Function.update_of_ne own]

/-- The machine `k` of a group once the output of machine `i` has been taken, before it is delivered. -/
theorem own_frame (target : Fin n → Option (Fin n)) (i k : Fin n) (group : Fin n → Machine) :
    (if k = i then shed target i (group i) else group k).state = (group k).state ∧
      (if k = i then shed target i (group i) else group k).channel.input = (group k).channel.input := by
  by_cases own : k = i
  · subst own
    rw [if_pos rfl]
    exact shed_frame target k (group k)
  · rw [if_neg own]
    exact ⟨rfl, rfl⟩

theorem handOn_state (target : Fin n → Option (Fin n)) (i : Fin n) (group : Fin n → Machine) (k : Fin n) :
    (handOn target i (group i) group k).state = (group k).state := by
  unfold handOn
  rw [accept_state, (own_frame target i k group).1]

theorem handOn_input (target : Fin n → Option (Fin n)) (i : Fin n) (group : Fin n → Machine) (k : Fin n) :
    (handOn target i (group i) group k).channel.input = (group k).channel.input ++
      if (group k).state.isTerminal then [] else sent target i (group i).output k := by
  unfold handOn
  rw [accept_input, (own_frame target i k group).1, (own_frame target i k group).2]

theorem handOn_output (linked : target i = some j) (group : Fin n → Machine) (k : Fin n) :
    (handOn target i (group i) group k).output = if k = i then [] else (group k).output := by
  unfold handOn
  rw [accept_output]
  by_cases own : k = i
  · rw [if_pos own, if_pos own]
    simp [shed, linked, Machine.drained, Machine.output, Machine.mapChannel]
  · rw [if_neg own, if_neg own]

theorem sinkOf_ofFn (group : Fin n → Machine) (j : Fin n) :
    sinkOf (List.ofFn group) j = if (group j).state.isTerminal then none else some j.val := by
  unfold sinkOf
  rw [ofFn_getElem?]

theorem sinkOf_eq_some {k : Fin n} :
    sinkOf (List.ofFn group) j = some k.val ↔ j = k ∧ (group k).state.isTerminal = false := by
  rw [sinkOf_ofFn]
  constructor
  · intro fed
    split at fed
    · cases fed
    · next live =>
      obtain rfl := Fin.ext (Option.some.inj fed)
      exact ⟨rfl, Bool.eq_false_of_not_eq_true live⟩
  · rintro ⟨rfl, live⟩
    rw [live]
    rfl

/-- What machine `k` is fed when the output of machine `i` is forwarded. -/
theorem sent_of_linked (linked : target i = some j) (group : Fin n → Machine) (words : List Word) (k : Fin n) :
    (if (group k).state.isTerminal then [] else sent target i words k) =
      if sinkOf (List.ofFn group) j = some k.val then words else [] := by
  simp only [sinkOf_eq_some, sent, linked, Option.some.injEq]
  cases (group k).state.isTerminal with
  | true => simp
  | false => simp

/-- A machine whose output is forwarded. -/
theorem Balances.of_handOn (linked : target i = some j) (group : Fin n → Machine) :
    Balances target group (handOn target i (group i) group)
      [.forwarded i (group i).output (sinkOf (List.ofFn group) j)] where
  output k := by
    rw [handOn_output linked]
    by_cases own : k = i
    · subst own
      simp [Entry.written, Entry.moved]
    · simp [Entry.written, Entry.moved, own, Fin.val_inj, Ne.symm own]
  input k := by
    rw [handOn_input, sent_of_linked linked]
    simp [Entry.taken, Entry.delivered]
  rest k atRest := by
    rw [handOn_state]
    exact atRest
  idle k atRest e member fed := by
    cases List.mem_singleton.mp member
    obtain ⟨-, live⟩ := sinkOf_eq_some.mp fed
    cases live.symm.trans atRest
  along e member := by
    cases List.mem_singleton.mp member
    refine ⟨j, by rw [join_links, linked]; rfl, ?_⟩
    rw [sinkOf_ofFn]
    by_cases atRest : (group j).state.isTerminal
    · rw [if_pos atRest]
      refine .inr ⟨rfl, _, ofFn_getElem? _ j, ?_⟩
      rw [handOn_state]
      exact atRest
    · exact .inl (if_neg atRest)
  ordered := List.pairwise_singleton _ _

/-! ## Turns and rounds -/

/-- What a turn leaves is accounted for, whether it comes back well or not. -/
theorem turn_balances {fuel : Nat} {result : Except Failure Bool} {machines : List Machine} {events : Array Event}
    (turned : turn fuel (links target) (List.ofFn group) i = some ⟨result, machines, events⟩) :
    ∃ after, machines = List.ofFn after ∧
      Balances target group after (turnBook fuel (links target) (List.ofFn group) i) := by
  unfold turnBook
  simp only [ofFn_getElem?]
  cases rest : (group i).state.isTerminal with
  | true =>
    rw [turn_of_terminal fuel rest] at turned
    cases turned
    exact ⟨group, rfl, .refl target group⟩
  | false =>
    rw [join_links]
    rcases resumed : (group i).resume fuel with _ | ⟨_ | state, m, log⟩
    · rw [turn_of_live fuel rest, resumed] at turned
      cases turned
    · rw [turn_of_live fuel rest, resumed] at turned
      cases turned
      exact ⟨_, rfl, .of_exchanges rest (Machine.resume_exchanges resumed)⟩
    · obtain ⟨more, same⟩ := turn_of_resumed target rest resumed
      cases same.symm.trans turned
      refine ⟨_, rfl, ?_⟩
      have balances : Balances target group (Function.update group i m)
          [.resumed i ((group i).took fuel) ((group i).wrote fuel)] :=
        .of_exchanges rest (Machine.resume_exchanges resumed)
      cases linked : target i with
      | none =>
        rw [handOn_of_unlinked linked]
        exact balances
      | some j =>
        have forwarded := Balances.of_handOn linked (Function.update group i m)
        rw [Function.update_self, handOn_update] at forwarded
        simp only [Option.map_some, ofFn_set]
        exact balances.trans forwarded

theorem turns_balances {fuel : Nat} {indices : List (Fin n)} {produced : Bool} {result : Except Failure Bool}
    {machines : List Machine} {log events : Array Event}
    (turned : turns fuel (links target) (indices.map Fin.val) produced (List.ofFn group) log =
      some ⟨result, machines, events⟩) :
    ∃ after, machines = List.ofFn after ∧
      Balances target group after (turnsBook fuel (links target) (indices.map Fin.val) (List.ofFn group)) := by
  induction indices generalizing produced group log with
  | nil =>
    cases turned
    exact ⟨group, rfl, .refl target group⟩
  | cons i indices ih =>
    simp only [List.map_cons, turns] at turned
    simp only [List.map_cons, turnsBook]
    rcases first : turn fuel (links target) (List.ofFn group) i with _ | ⟨_ | more, between, events'⟩
    · rw [first] at turned
      cases turned
    · rw [first] at turned
      cases turned
      obtain ⟨after, rfl, balances⟩ := turn_balances first
      rw [List.append_nil]
      exact ⟨after, rfl, balances⟩
    · rw [first] at turned
      obtain ⟨between, rfl, balances⟩ := turn_balances first
      obtain ⟨after, rfl, later⟩ := ih turned
      exact ⟨after, rfl, balances.trans later⟩

/-- The log of a lockstep is only added to. -/
theorem turns_log (fuel : Nat) (ls : Links) (indices : List Nat) (produced : Bool) (machines : List Machine)
    (log : Array Event) :
    turns fuel ls indices produced machines log =
      (turns fuel ls indices produced machines #[]).map fun o => { o with events := log ++ o.events } := by
  induction indices generalizing produced machines log with
  | nil => simp [turns]
  | cons index indices ih =>
    simp only [turns]
    rcases turn fuel ls machines index with _ | ⟨_ | more, between, events⟩
    · rfl
    · simp
    · simp only
      rw [ih _ _ (log ++ events), ih _ _ (#[] ++ events)]
      simp [Function.comp_def]

theorem roundBook_ofFn (fuel : Nat) : roundBook fuel (links target) (List.ofFn group) =
    turnsBook fuel (links target) ((List.finRange n).map Fin.val) (List.ofFn group) := by
  unfold roundBook
  rw [List.length_ofFn, List.map_coe_finRange_eq_range]

theorem rounds_balances {cycles fuel done : Nat} {result : Except Failure Quiescence} {machines : List Machine}
    {log events : Array Event}
    (ran : rounds cycles (links target) fuel done (List.ofFn group) log = some ⟨result, machines, events⟩) :
    ∃ after, machines = List.ofFn after ∧
      Balances target group after (roundsBook cycles (links target) fuel (List.ofFn group)) := by
  induction fuel generalizing done group log with
  | zero => cases ran
  | succ fuel ih =>
    simp only [rounds, round_ofFn] at ran
    rw [turns_log] at ran
    simp only [roundsBook, round_ofFn, roundBook_ofFn]
    rcases turned : turns cycles (links target) ((List.finRange n).map Fin.val) false (List.ofFn group) #[] with
      _ | ⟨_ | wrote, between, events'⟩
    · rw [turned] at ran
      cases ran
    · rw [turned] at ran
      cases ran
      obtain ⟨after, rfl, balances⟩ := turns_balances turned
      rw [List.append_nil]
      exact ⟨after, rfl, balances⟩
    · rw [turned] at ran
      obtain ⟨between, rfl, balances⟩ := turns_balances turned
      cases wrote with
      | true =>
        obtain ⟨after, rfl, later⟩ := ih ran
        exact ⟨after, rfl, balances.trans later⟩
      | false =>
        cases ran
        rw [List.append_nil]
        exact ⟨between, rfl, balances⟩

/-- A lockstep loses no words and makes none up. Take machines with any links between them and any words on their
    queues. At whatever point their lockstep comes back, well or not, what was on the output of a machine and what it
    has written are what has been forwarded from it and what is on its output, and what it has taken and what is on its
    input are what was on its input and what has been forwarded to it. Words are forwarded only along links, so that a
    machine without one keeps its output. They are dropped only if the peer is at rest, which is fed nothing any more
    then. -/
theorem run_balances {machines left : List Machine} {pairs : List (Nat × Nat)} {ls : Links}
    (linked : linkAll (unlinked machines.length) pairs = .ok ls) {fuel : Nat} {result : Except Failure Quiescence}
    {events : Array Event} (ran : run fuel ls machines = some ⟨result, left, events⟩) :
    left.length = machines.length ∧
    (∀ (i : Nat) (m m' : Machine), machines[i]? = some m → left[i]? = some m' →
      m.output ++ (book fuel ls machines).flatMap (Entry.written i) =
          (book fuel ls machines).flatMap (Entry.moved i) ++ m'.output ∧
        (book fuel ls machines).flatMap (Entry.taken i) ++ m'.channel.input =
          m.channel.input ++ (book fuel ls machines).flatMap (Entry.delivered i) ∧
        (ls[i]?.join = none → m'.output = m.output ++ (book fuel ls machines).flatMap (Entry.written i)) ∧
        (m.state.isTerminal → m'.state.isTerminal ∧ ∀ e ∈ book fuel ls machines, e.sink ≠ some i)) ∧
    (∀ e ∈ book fuel ls machines, e.Along ls left) ∧
    (book fuel ls machines).Pairwise (Entry.Precedes ls) := by
  obtain ⟨target, rfl⟩ := exists_target_of_linkAll linked
  have whole : List.ofFn machines.get = machines := List.ofFn_get machines
  obtain ⟨after, rfl, balances⟩ := rounds_balances ((congrArg (run fuel (links target)) whole).trans ran)
  have balances : Balances target machines.get after (book fuel (links target) machines) := by
    rw [whole] at balances
    exact balances
  refine ⟨List.length_ofFn, fun i m m' found found' => ?_, balances.along, balances.ordered⟩
  obtain ⟨k, rfl, rfl⟩ := exists_of_ofFn_getElem? found'
  obtain ⟨-, rfl⟩ := List.getElem?_eq_some_iff.mp found
  have output := balances.output k
  refine ⟨output, balances.input k, fun unlinked => ?_, fun atRest => ?_⟩
  · have unmoved : (book fuel (links target) machines).flatMap (Entry.moved k) = [] := by
      refine List.flatMap_eq_nil_iff.mpr fun e member => ?_
      cases e with
      | resumed => rfl
      | forwarded source words sink =>
        obtain ⟨sink', linked', -⟩ := balances.along _ member
        refine if_neg ?_
        rintro rfl
        cases unlinked.symm.trans linked'
    rw [unmoved] at output
    exact output.symm
  · exact ⟨balances.rest k atRest, balances.idle k atRest⟩

/-- A machine that writes two words and ends, one that passes a word back to it, and one that comes to a fault. -/
def relay : List Machine :=
  [.ofProgram [104, 5, 104, 6, 99] {}, .ofProgram [3, 5, 4, 5, 99, 0] {}, .ofProgram [104, 9, 0] {}]

/-- What the second machine passes back is dropped, and what the third has written is not forwarded. -/
theorem run_balances_relay :
    ∃ ls failure left events, linkAll (unlinked relay.length) [(0, 1), (1, 0), (2, 1)] = .ok ls ∧
      run 9 ls relay = some ⟨.error failure, left, events⟩ ∧
      book 9 ls relay = [.resumed 0 [] [5, 6], .forwarded 0 [5, 6] (some 1), .resumed 1 [5] [5], .forwarded 1 [5] none,
        .resumed 2 [] [9]] ∧
      left.length = 3 ∧ (∀ m, left[1]? = some m → m.channel.input = [6] ∧ m.output = []) ∧
      ∀ m, left[2]? = some m → m.output = [9] := by
  obtain ⟨failure, left, events, ran⟩ :
      ∃ failure left events, run 9 [some 1, some 0, some 1] relay = some ⟨.error failure, left, events⟩ :=
    ⟨_, _, _, rfl⟩
  have passed : book 9 [some 1, some 0, some 1] relay = [.resumed 0 [] [5, 6], .forwarded 0 [5, 6] (some 1),
      .resumed 1 [5] [5], .forwarded 1 [5] none, .resumed 2 [] [9]] := by decide +kernel
  have linked : linkAll (unlinked relay.length) [(0, 1), (1, 0), (2, 1)] = .ok [some 1, some 0, some 1] := rfl
  obtain ⟨length, accounts, -, -⟩ := run_balances linked ran
  rw [passed] at accounts
  refine ⟨_, failure, left, events, linked, ran, passed, length, fun m found => ?_, fun m found => ?_⟩
  · obtain ⟨output, input, -⟩ := accounts 1 _ m rfl found
    have input : [5] ++ m.channel.input = [5] ++ [6] := input
    have output : [5] ++ [] = [5] ++ m.output := output
    exact ⟨List.append_cancel_left input, (List.append_cancel_left output).symm⟩
  · obtain ⟨output, -⟩ := accounts 2 _ m rfl found
    exact output.symm

end IntegerMachine.Lockstep
