import IntegerMachine.Lockstep
import IntegerMachine.Proofs.Dataflow
import Mathlib.Data.List.FinRange

/-!
# The rounds of a lockstep

What a lockstep does, as relations without bounds: a turn of each of some machines (`Turns`), and rounds until
one of them is silent (`Rounds`). A lockstep comes back exactly if it has such rounds, and then with what they
leave (`rounds_of_run`, `Rounds.run_eventually`). The machines of a group are indexed by `Fin n`, and every
list of links that can be built up has the form of `links` (`exists_target_of_linkAll`).
-/
namespace IntegerMachine.Lockstep
open Dataflow (shed sent)
variable {n : Nat}

/-- The links of a group of machines as a list. -/
def links (target : Fin n → Option (Fin n)) : Links := List.ofFn fun i => (target i).map Fin.val

theorem ofFn_set {α : Type} (f : Fin n → α) (i : Fin n) (a : α) :
    (List.ofFn f).set i a = List.ofFn (Function.update f i a) := by
  refine List.ext_getElem (by simp) fun k first second => ?_
  rw [List.getElem_set, List.getElem_ofFn, List.getElem_ofFn]
  by_cases same : i.val = k
  · subst same
    rw [if_pos rfl, Function.update_self]
  · rw [if_neg same, Function.update_of_ne fun equal => same (congrArg Fin.val equal).symm]

theorem ofFn_getElem? {α : Type} (f : Fin n → α) (i : Fin n) : (List.ofFn f)[i.val]? = some (f i) := by
  rw [List.getElem?_ofFn, dif_pos i.isLt]

theorem exists_of_ofFn_getElem? {α : Type} {f : Fin n → α} {k : Nat} {a : α} (found : (List.ofFn f)[k]? = some a) :
    ∃ i : Fin n, i.val = k ∧ f i = a := by
  obtain ⟨inside, rfl⟩ := List.getElem?_eq_some_iff.mp found
  rw [List.length_ofFn] at inside
  exact ⟨⟨k, inside⟩, rfl, (List.getElem_ofFn _).symm⟩

theorem join_links (target : Fin n → Option (Fin n)) (i : Fin n) :
    (links target)[i.val]?.join = (target i).map Fin.val := by
  unfold links
  rw [ofFn_getElem?]
  rfl

theorem exists_target_of_link {target : Fin n → Option (Fin n)} {source sink : Nat} {ls : Links}
    (linked : link (links target) source sink = .ok ls) : ∃ target' : Fin n → Option (Fin n), ls = links target' := by
  unfold link at linked
  by_cases inside : source < (links target).length ∧ sink < (links target).length
  · rw [if_pos inside] at linked
    cases linked
    simp only [links, List.length_ofFn] at inside
    refine ⟨Function.update target ⟨source, inside.1⟩ (some ⟨sink, inside.2⟩), ?_⟩
    change (List.ofFn _).set (Fin.mk source inside.1).val (some sink) = _
    rw [ofFn_set]
    unfold links
    congr 1
    funext i
    by_cases same : i = ⟨source, inside.1⟩
    · subst same
      rw [Function.update_self, Function.update_self]
      rfl
    · rw [Function.update_of_ne same, Function.update_of_ne same]
  · rw [if_neg inside] at linked
    cases linked

/-- Every list of links between the machines of a group goes from machines of it to machines of it. -/
theorem exists_target_of_linkAll {pairs : List (Nat × Nat)} {ls : Links}
    (linked : linkAll (unlinked n) pairs = .ok ls) : ∃ target : Fin n → Option (Fin n), ls = links target := by
  have go : ∀ (pairs : List (Nat × Nat)) (target : Fin n → Option (Fin n)),
      linkAll (links target) pairs = .ok ls → ∃ target' : Fin n → Option (Fin n), ls = links target' := by
    intro pairs
    induction pairs with
    | nil =>
      intro target linked
      cases linked
      exact ⟨target, rfl⟩
    | cons pair pairs ih =>
      intro target linked
      unfold linkAll at linked
      cases first : link (links target) pair.1 pair.2 with
      | error e =>
        simp only [first] at linked
        cases linked
      | ok ls' =>
        obtain ⟨target', rfl⟩ := exists_target_of_link first
        simp only [first] at linked
        exact ih target' linked
  have none : unlinked n = links fun _ : Fin n => none := by simp [unlinked, links, List.ofFn_const]
  exact go pairs _ (none ▸ linked)

/-! ## A turn -/

/-- The machine fed unless it is at rest. -/
def accept (m : Machine) (words : List Word) : Machine := if m.state.isTerminal then m else m.fed words

theorem accept_nil (m : Machine) : accept m [] = m := by
  unfold accept
  split
  · rfl
  · exact m.fed_nil

/-- The group once machine `i` has had its turn and become `m`. -/
def handOn (target : Fin n → Option (Fin n)) (i : Fin n) (m : Machine) (group : Fin n → Machine) (k : Fin n) : Machine :=
  accept (if k = i then shed target i m else group k) (sent target i m.output k)

variable {target : Fin n → Option (Fin n)} {group : Fin n → Machine} {i : Fin n} {m : Machine}

theorem handOn_of_unlinked (unlinked : target i = none) : handOn target i m group = Function.update group i m := by
  funext k
  have nothing : sent target i m.output k = [] := by simp [sent, unlinked]
  unfold handOn
  rw [nothing, accept_nil]
  by_cases same : k = i
  · subst same
    simp [shed, unlinked]
  · rw [if_neg same, Function.update_of_ne same]

theorem handOn_of_linked {j : Fin n} (linked : target i = some j) :
    handOn target i m group = Function.update (Function.update group i m.drained) j
      (accept (Function.update group i m.drained j) m.output) := by
  have own : ∀ k, (if k = i then shed target i m else group k) = Function.update group i m.drained k := by
    intro k
    by_cases same : k = i
    · subst same
      simp [shed, linked]
    · rw [if_neg same, Function.update_of_ne same]
  funext k
  unfold handOn
  rw [own k]
  by_cases peer : k = j
  · subst peer
    simp [sent, linked]
  · have nothing : sent target i m.output k = [] := by
      simp only [sent, linked, Option.some.injEq, if_neg (Ne.symm peer)]
    rw [nothing, accept_nil, Function.update_of_ne peer]

theorem forward_of_getElem? {machines : List Machine} {source sink : Nat} {sender receiver : Machine}
    (sends : machines[source]? = some sender) (receives : (machines.set source sender.drained)[sink]? = some receiver) :
    ∃ events, forward machines source sink =
      ⟨.ok (), (machines.set source sender.drained).set sink (accept receiver sender.output), events⟩ := by
  have drain : sender.channel.drain = (sender.output, sender.drained.channel) := rfl
  have found : (machines.set source { sender with channel := sender.drained.channel })[sink]? = some receiver :=
    receives
  simp only [forward, sends, drain, found, accept]
  cases rest : receiver.state.isTerminal with
  | true =>
    obtain ⟨inside, rfl⟩ := List.getElem?_eq_some_iff.mp receives
    simp only [if_true, List.set_getElem_self]
    exact ⟨_, rfl⟩
  | false =>
    simp only [Machine.feedAll_of_live (c := receiver.channel) rest, Bool.false_eq_true, if_false]
    exact ⟨_, rfl⟩

theorem forward_ofFn {j : Fin n} (linked : target i = some j) (group : Fin n → Machine) (m : Machine) :
    ∃ events, forward (List.ofFn (Function.update group i m)) i j =
      ⟨.ok (), List.ofFn (handOn target i m group), events⟩ := by
  have sends : (List.ofFn (Function.update group i m))[i.val]? = some m := by
    rw [ofFn_getElem?, Function.update_self]
  have drained : (List.ofFn (Function.update group i m)).set i m.drained =
      List.ofFn (Function.update group i m.drained) := by
    rw [ofFn_set, Function.update_idem]
  obtain ⟨events, forwarded⟩ := forward_of_getElem? sends (by rw [drained]; exact ofFn_getElem? _ j)
  rw [drained, ofFn_set, ← handOn_of_linked linked] at forwarded
  exact ⟨events, forwarded⟩

theorem turn_of_terminal (fuel : Nat) (atRest : (group i).state.isTerminal) :
    turn fuel (links target) (List.ofFn group) i = some ⟨.ok false, List.ofFn group, #[]⟩ := by
  unfold turn
  simp only [ofFn_getElem?, if_pos atRest]

theorem turn_of_live (fuel : Nat) (live : (group i).state.isTerminal = false) :
    turn fuel (links target) (List.ofFn group) i =
      match (group i).resume fuel with
      | none => none
      | some ⟨.error failure, m, events⟩ => some ⟨.error failure, List.ofFn (Function.update group i m), events⟩
      | some ⟨.ok _, m, events⟩ =>
        match target i with
        | none => some ⟨.ok (m.outputCount != (group i).outputCount), List.ofFn (Function.update group i m), events⟩
        | some j =>
          match forward (List.ofFn (Function.update group i m)) i j with
          | ⟨.ok (), machines, more⟩ => some ⟨.ok (m.outputCount != (group i).outputCount), machines, events ++ more⟩
          | ⟨.error failure, machines, more⟩ => some ⟨.error failure, machines, events ++ more⟩ := by
  unfold turn
  simp only [ofFn_getElem?, live, if_neg Bool.false_ne_true, ofFn_set, links]
  rcases (group i).resume fuel with _ | ⟨_ | _, m, events⟩
  · rfl
  · rfl
  · cases target i with
    | none => rfl
    | some j => rfl

/-- A machine that is resumed and comes back has its turn. -/
theorem turn_of_resumed (target : Fin n → Option (Fin n)) {fuel : Nat} {state : RunState} {events : Array Event}
    (live : (group i).state.isTerminal = false) (resumed : (group i).resume fuel = some ⟨.ok state, m, events⟩) :
    ∃ log, turn fuel (links target) (List.ofFn group) i =
      some ⟨.ok (m.outputCount != (group i).outputCount), List.ofFn (handOn target i m group), log⟩ := by
  rw [turn_of_live fuel live, resumed]
  cases linked : target i with
  | none =>
    rw [handOn_of_unlinked linked]
    exact ⟨events, rfl⟩
  | some j =>
    obtain ⟨more, forwarded⟩ := forward_ofFn linked group m
    simp only [forwarded]
    exact ⟨events ++ more, rfl⟩

/-- A turn that comes back well is that of a machine which has been resumed. -/
theorem resumed_of_turn {fuel : Nat} {produced : Bool} {machines : List Machine} {events : Array Event}
    (live : (group i).state.isTerminal = false)
    (turned : turn fuel (links target) (List.ofFn group) i = some ⟨.ok produced, machines, events⟩) :
    ∃ state m, Machine.Runs (group i).launched (.ok state) m ∧
      produced = (m.outputCount != (group i).outputCount) ∧ machines = List.ofFn (handOn target i m group) := by
  rcases resumed : (group i).resume fuel with _ | ⟨_ | state, m, more⟩
  · rw [turn_of_live fuel live, resumed] at turned
    cases turned
  · rw [turn_of_live fuel live, resumed] at turned
    cases turned
  · obtain ⟨log, same⟩ := turn_of_resumed target live resumed
    cases same.symm.trans turned
    exact ⟨state, m, (Machine.returns_resume_iff live).mp ⟨fuel, more, resumed⟩, rfl, rfl⟩

/-! ## Rounds -/

/-- The turns of some machines, all of which come back well. The truth value tells whether one of the machines
    wrote any output. -/
inductive Turns (target : Fin n → Option (Fin n)) :
    List (Fin n) → (Fin n → Machine) → Bool → (Fin n → Machine) → Prop
  | done (group : Fin n → Machine) : Turns target [] group false group
  | out {i : Fin n} {indices : List (Fin n)} {group left : Fin n → Machine} {produced : Bool}
      (atRest : (group i).state.isTerminal) (later : Turns target indices group produced left) :
      Turns target (i :: indices) group produced left
  | turn {i : Fin n} {indices : List (Fin n)} {group left : Fin n → Machine} {produced : Bool} {state : RunState}
      {m : Machine} (live : (group i).state.isTerminal = false)
      (run : Machine.Runs (group i).launched (.ok state) m)
      (later : Turns target indices (handOn target i m group) produced left) :
      Turns target (i :: indices) group (m.outputCount != (group i).outputCount || produced) left

/-- Rounds up to a silent one. -/
inductive Rounds (target : Fin n → Option (Fin n)) : (Fin n → Machine) → (Fin n → Machine) → Prop
  | last {group left : Fin n → Machine} (silent : Turns target (List.finRange n) group false left) :
      Rounds target group left
  | next {group between left : Fin n → Machine} (round : Turns target (List.finRange n) group true between)
      (later : Rounds target between left) : Rounds target group left

theorem turns_of_ok {fuel : Nat} {indices : List (Fin n)} {before after : Bool} {machines : List Machine}
    {log events : Array Event}
    (turned : turns fuel (links target) (indices.map Fin.val) before (List.ofFn group) log =
      some ⟨.ok after, machines, events⟩) :
    ∃ produced left, Turns target indices group produced left ∧ after = (before || produced) ∧
      machines = List.ofFn left := by
  induction indices generalizing before group log with
  | nil =>
    cases turned
    exact ⟨false, group, .done group, (Bool.or_false _).symm, rfl⟩
  | cons i indices ih =>
    simp only [List.map_cons, turns] at turned
    rcases first : turn fuel (links target) (List.ofFn group) i with _ | ⟨_ | more, between, events'⟩
    · rw [first] at turned
      cases turned
    · rw [first] at turned
      cases turned
    · rw [first] at turned
      cases rest : (group i).state.isTerminal with
      | true =>
        rw [turn_of_terminal fuel rest] at first
        cases first
        obtain ⟨produced, left, later, rfl, rfl⟩ := ih turned
        exact ⟨produced, left, .out rest later, by rw [Bool.or_false], rfl⟩
      | false =>
        obtain ⟨state, m, run, rfl, rfl⟩ := resumed_of_turn rest first
        obtain ⟨produced, left, later, rfl, rfl⟩ := ih turned
        exact ⟨_, left, .turn rest run later, Bool.or_assoc _ _ _, rfl⟩

theorem Turns.turns_eventually {indices : List (Fin n)} {produced : Bool} {left : Fin n → Machine}
    (turned : Turns target indices group produced left) :
    ∃ bound, ∀ fuel, bound ≤ fuel → ∀ before log, ∃ events,
      turns fuel (links target) (indices.map Fin.val) before (List.ofFn group) log =
        some ⟨.ok (before || produced), List.ofFn left, events⟩ := by
  induction turned with
  | done group => exact ⟨0, fun fuel _ before log => ⟨log, by rw [Bool.or_false]; rfl⟩⟩
  | @out i indices group left produced atRest later ih =>
    obtain ⟨bound, found⟩ := ih
    refine ⟨bound, fun fuel enough before log => ?_⟩
    obtain ⟨events, turned⟩ := found fuel enough before log
    refine ⟨events, ?_⟩
    simp only [List.map_cons, turns, turn_of_terminal fuel atRest, Bool.or_false, Array.append_empty]
    exact turned
  | @turn i indices group left produced state m live run later ih =>
    obtain ⟨bound, found⟩ := ih
    obtain ⟨log', same⟩ := Machine.resume_eq_execute live
    obtain ⟨bound', events', resumed⟩ := run.execute_eventually log'
    refine ⟨bound + bound', fun fuel enough before log => ?_⟩
    obtain ⟨more, first⟩ := turn_of_resumed target live ((same fuel).trans (resumed fuel (by omega)))
    obtain ⟨events, turned⟩ := found fuel (by omega) (before || m.outputCount != (group i).outputCount) (log ++ more)
    refine ⟨events, ?_⟩
    simp only [List.map_cons, turns, first]
    rw [turned, Bool.or_assoc]

theorem round_ofFn (fuel : Nat) (log : Array Event) :
    round fuel (links target) (List.ofFn group) log =
      turns fuel (links target) ((List.finRange n).map Fin.val) false (List.ofFn group) log := by
  unfold round
  rw [List.length_ofFn, List.map_coe_finRange_eq_range]

theorem rounds_of_ok {cycles fuel done : Nat} {q : Quiescence} {machines : List Machine} {log events : Array Event}
    (ran : rounds cycles (links target) fuel done (List.ofFn group) log = some ⟨.ok q, machines, events⟩) :
    ∃ left, Rounds target group left ∧ machines = List.ofFn left := by
  induction fuel generalizing done group log with
  | zero => cases ran
  | succ fuel ih =>
    simp only [rounds, round_ofFn] at ran
    rcases turned : turns cycles (links target) ((List.finRange n).map Fin.val) false (List.ofFn group) log with
      _ | ⟨_ | after, between, events'⟩
    · rw [turned] at ran
      cases ran
    · rw [turned] at ran
      cases ran
    · rw [turned] at ran
      obtain ⟨_, left, round, rfl, rfl⟩ := turns_of_ok turned
      cases after with
      | true =>
        obtain ⟨final, later, rfl⟩ := ih ran
        exact ⟨final, .next round later, rfl⟩
      | false =>
        cases ran
        exact ⟨left, .last round, rfl⟩

/-- A lockstep that comes back well has gone through rounds. -/
theorem rounds_of_run {fuel : Nat} {q : Quiescence} {machines : List Machine} {events : Array Event}
    (ran : run fuel (links target) (List.ofFn group) = some ⟨.ok q, machines, events⟩) :
    ∃ left, Rounds target group left ∧ machines = List.ofFn left :=
  rounds_of_ok ran

theorem Rounds.rounds_eventually {left : Fin n → Machine} (ran : Rounds target group left) :
    ∃ bound, ∀ cycles fuel, bound ≤ cycles → bound ≤ fuel → ∀ done log, ∃ q events,
      rounds cycles (links target) fuel done (List.ofFn group) log = some ⟨.ok q, List.ofFn left, events⟩ := by
  induction ran with
  | last silent =>
    obtain ⟨bound, found⟩ := silent.turns_eventually
    refine ⟨bound + 1, fun cycles fuel enough more done log => ?_⟩
    obtain ⟨fuel, rfl⟩ := Nat.exists_eq_add_of_le' (Nat.le_trans (Nat.le_add_left 1 bound) more)
    obtain ⟨events, turned⟩ := found cycles (by omega) false log
    simp only [rounds, round_ofFn, turned]
    exact ⟨_, _, rfl⟩
  | next round later ih =>
    obtain ⟨bound, found⟩ := round.turns_eventually
    obtain ⟨bound', found'⟩ := ih
    refine ⟨bound + bound' + 1, fun cycles fuel enough more done log => ?_⟩
    obtain ⟨fuel, rfl⟩ := Nat.exists_eq_add_of_le' (Nat.le_trans (Nat.le_add_left 1 _) more)
    obtain ⟨events, turned⟩ := found cycles (by omega) false log
    simp only [rounds, round_ofFn, turned]
    exact found' cycles fuel (by omega) (by omega) (done + 1) events

/-- A lockstep with rounds comes back with what they leave. -/
theorem Rounds.run_eventually {left : Fin n → Machine} (ran : Rounds target group left) :
    ∃ bound, ∀ fuel, bound ≤ fuel → ∃ q events,
      run fuel (links target) (List.ofFn group) = some ⟨.ok q, List.ofFn left, events⟩ := by
  obtain ⟨bound, found⟩ := ran.rounds_eventually
  exact ⟨bound, fun fuel enough => found fuel fuel enough enough 0 #[]⟩

end IntegerMachine.Lockstep
