import IntegerMachine.Network.Router
import IntegerMachine.Proofs.Strand

/-!
# Errands

What a router does is one errand after the other: it delivers a packet, refuses one, spreads a broadcast to a node
or reports that the network is idle (`Errand`). Whatever it takes off the bus, feeds to a node or tells its
supervisor belongs to one of them, and so does whatever the supervisor has it do (`Duty`). That is kept by each of
its actions (`Router.step_balanced`), in which some errands may be done while another one is still under way
(`Router.Balance`).
-/
namespace IntegerMachine

/-- The word is the address of the node with this index. -/
def Network.Addressed (net : Network) (address : Word) (index : Nat) : Prop :=
  address.toInt = index ∧ index < net.nodes.length

/-- What a control has the router do. -/
inductive Duty where
  | send (packet : Packet)
  /-- To feed a payload to the node with an index. -/
  | spread (index : Nat) (payload : List Word)

/-- A broadcast to the nodes from an index on, each of which is its own duty. -/
def Duty.spreads (index size : Nat) (payload : List Word) : List Duty :=
  (List.range' index (size - index)).map (.spread · payload)

/-- What a control has the router do in a network of so many nodes. -/
def Control.duties (size : Nat) : Control → List Duty
  | .proceed | .stop => []
  | .send packet => [.send packet]
  | .broadcast payload => Duty.spreads 0 size payload

/-- What a router has done with a packet, a broadcast or a silent bus. -/
inductive Errand where
  /-- The payload of a packet has been fed to a node. -/
  | delivery (packet : Packet) (origin : Origin) (index : Nat)
  /-- No node has the address of a packet. -/
  | stray (packet : Packet) (origin : Origin)
  /-- The node with the address of a packet was at rest. Part of the payload may have been fed to it before. -/
  | refusal (packet : Packet) (origin : Origin) (index : Nat) (part : List Word)
  /-- A broadcast has been fed to a node, or as much of it as the node accepted. -/
  | spread (index : Nat) (payload part : List Word)
  | idle

namespace Errand

/-- The packet that has been taken off the bus for it. -/
def taken : Errand → List Packet
  | delivery packet .bus _ | stray packet .bus | refusal packet .bus _ _ => [packet]
  | delivery _ .supervisor _ | stray _ .supervisor | refusal _ .supervisor _ _ | spread .. | idle => []

/-- The words that a node has been fed. -/
def feeds (i : Nat) : Errand → List Word
  | delivery packet _ index => if index = i then packet.payload else []
  | refusal _ _ index part | spread index _ part => if index = i then part else []
  | stray .. | idle => []

/-- What the supervisor is told. -/
def notices : Errand → List Notice
  | stray packet .bus | refusal packet .bus _ _ => [.unroutable packet]
  | idle => [.idle]
  | delivery .. | stray _ .supervisor | refusal _ .supervisor _ _ | spread .. => []

/-- What has been done for the supervisor. -/
def discharged : Errand → List Duty
  | delivery packet .supervisor _ | stray packet .supervisor | refusal packet .supervisor _ _ => [.send packet]
  | spread index payload _ => [.spread index payload]
  | delivery _ .bus _ | stray _ .bus | refusal _ .bus _ _ | idle => []

/-- A packet is delivered to the node with its address, and is refused only if there is none or that one is at
    rest. Then it has not been fed whole, unless there is nothing to feed. A broadcast is fed whole to a node that
    is not at rest. -/
def Lawful (net : Network) : Errand → Prop
  | delivery packet _ index => net.Addressed packet.destination index
  | stray packet _ => packet.destination < 0 ∨ (net.nodes.length : Int) ≤ packet.destination.toInt
  | refusal packet _ index part =>
    net.Addressed packet.destination index ∧ net.isLive index = false ∧ part <+: packet.payload ∧
      (part = [] ∨ part ≠ packet.payload)
  | spread index payload part =>
    index < net.nodes.length ∧ part <+: payload ∧ (part = payload ∨ net.isLive index = false)
  | idle => True

end Errand

namespace Router.Phase

/-- The packet from the bus that the router is busy with. -/
def carried : Phase → List Packet
  | routing packet .bus | feeding _ _ packet .bus => [packet]
  | _ => []

/-- The words that a node has been fed for the errand under way. -/
def fed (i : Nat) : Phase → List Word
  | feeding index rest packet _ => if index = i then packet.payload.take (packet.payload.length - rest.length) else []
  | spreading index rest payload _ => if index = i then payload.take (payload.length - rest.length) else []
  | _ => []

/-- What the supervisor is about to be told. -/
def pending : Phase → List Notice
  | consulting notice => [notice]
  | _ => []

/-- What is still to be done for the control that the router obeys, in a network of so many nodes. -/
def ahead (size : Nat) : Phase → List Duty
  | routing packet .supervisor | feeding _ _ packet .supervisor => [.send packet]
  | broadcasting index payload _ | spreading index _ payload _ => Duty.spreads index size payload
  | _ => []

/-- The router is busy with nothing that has been taken, fed, to be told or to be done. -/
def Blank (phase : Phase) : Prop :=
  phase.carried = [] ∧ (∀ i, phase.fed i = []) ∧ phase.pending = [] ∧ ∀ size, phase.ahead size = []

theorem blank_receiving : receiving.Blank := ⟨rfl, fun _ => rfl, rfl, fun _ => rfl⟩

theorem blank_surveyingBus : surveyingBus.Blank := ⟨rfl, fun _ => rfl, rfl, fun _ => rfl⟩

theorem blank_surveying (index : Nat) : (surveying index).Blank := ⟨rfl, fun _ => rfl, rfl, fun _ => rfl⟩

theorem blank_stopped : stopped.Blank := ⟨rfl, fun _ => rfl, rfl, fun _ => rfl⟩

/-- What the router is about to feed to a node is the rest of what it has for it. -/
def Sound (net : Network) : Phase → Prop
  | feeding index rest packet _ => net.Addressed packet.destination index ∧ rest <:+ packet.payload
  | spreading index rest payload _ => index < net.nodes.length ∧ rest <:+ payload
  | _ => True

end Router.Phase

/-- What a supervisor has been told, and its answer to each. -/
abbrev Minutes := List (Notice × Control)

namespace Minutes

def notices (minutes : Minutes) : List Notice := minutes.map Prod.fst

/-- What the supervisor has had the router do in a network of so many nodes. -/
def duties (size : Nat) (minutes : Minutes) : List Duty := minutes.flatMap fun entry => entry.2.duties size

theorem notices_append (minutes more : Minutes) : notices (minutes ++ more) = minutes.notices ++ more.notices :=
  List.map_append

theorem duties_append (size : Nat) (minutes more : Minutes) :
    duties size (minutes ++ more) = minutes.duties size ++ more.duties size := List.flatMap_append

end Minutes

/-- A supervisor that also takes the minutes. -/
def Supervisor.recorded {σ : Type} (supervise : Supervisor σ) : Supervisor (σ × Minutes) :=
  fun (memory, minutes) notice =>
    let (control, memory) := supervise memory notice
    (control, memory, minutes ++ [(notice, control)])

namespace Router
variable {σ : Type}

/-- The router without the minutes of its supervisor. -/
def plain (r : Router (σ × Minutes)) : Router σ := { r with supervisor := r.supervisor.1 }

/-- Whether the supervisor writes anything down is all the same to the network. -/
theorem step_recorded (supervise : Supervisor σ) (late : Bool) (r : Router (σ × Minutes)) (net : Network) :
    r.plain.step supervise late net =
      ((r.step supervise.recorded late net).1.plain, (r.step supervise.recorded late net).2) := by
  obtain ⟨phase, stats, memory, minutes⟩ := r
  cases phase with
  | receiving =>
    simp only [step, plain]
    cases net.bus with
    | cons packet bus => rfl
    | nil =>
      simp only
      split <;> rfl
  | routing packet origin =>
    simp only [step, plain]
    cases net.index? packet.destination with
    | none => cases origin <;> rfl
    | some index =>
      simp only
      split
      · rfl
      · cases origin <;> rfl
  | feeding index rest packet origin =>
    cases rest with
    | nil => rfl
    | cons word rest =>
      simp only [step, plain]
      rcases net.feedNode index [word] with ⟨_ | _, fed⟩
      · cases origin <;> rfl
      · rfl
  | consulting notice =>
    simp only [step, plain, Supervisor.recorded]
    rcases supervise memory notice with ⟨control, memory'⟩
    cases control <;> rfl
  | surveying index | broadcasting index =>
    simp only [step, plain]
    cases net.nodes[index]? <;> rfl
  | spreading index rest payload reached =>
    cases rest with
    | nil => rfl
    | cons word rest =>
      simp only [step, plain]
      rcases net.feedNode index [word] with ⟨_ | _, fed⟩ <;> rfl
  | surveyingBus | stopped => rfl

end Router

namespace Network

/-- The network with a word fed to a node. -/
def push (net : Network) (index : Nat) (word : Word) : Network :=
  { net with nodes := net.nodes.modify index fun node => node.fed [word] }

theorem index?_cases (net : Network) (address : Word) :
    ((address < 0 ∨ (net.nodes.length : Int) ≤ address.toInt) ∧ net.index? address = none) ∨
    ∃ index, net.Addressed address index ∧ net.index? address = some index := by
  unfold index? Word.toSize?
  by_cases negative : address < 0
  · rw [if_pos negative]
    exact .inl ⟨.inl negative, rfl⟩
  · rw [if_neg negative]
    have natural : 0 ≤ address.toInt := by
      rw [Int64.lt_iff_toInt_lt] at negative
      exact Int.not_lt.mp negative
    have same : (address.toInt.toNat : Int) = address.toInt := Int.toNat_of_nonneg natural
    simp only
    by_cases inside : address.toInt.toNat < net.nodes.length
    · rw [if_pos inside]
      exact .inr ⟨_, ⟨same.symm, inside⟩, rfl⟩
    · rw [if_neg inside]
      refine .inl ⟨.inr ?_, rfl⟩
      omega

/-- A node accepts a word unless it is at rest. -/
theorem feedNode_cases (net : Network) (index : Nat) (word : Word) :
    (index < net.nodes.length ∧ net.feedNode index [word] = (true, net.push index word)) ∨
    (net.isLive index = false ∧ net.feedNode index [word] = (false, net)) := by
  unfold feedNode isLive
  cases present : net.nodes[index]? with
  | none => exact .inr ⟨rfl, rfl⟩
  | some node =>
    cases rest : node.channel.state.isTerminal with
    | true =>
      have refused : node.channel.feed word = .error (.invalidState node.channel.program .feed node.channel.state) := by
        simp [Channel.feed, Channel.feedAll, rest]
      exact .inr ⟨by simp [rest], by simp only [refused]⟩
    | false =>
      have accepted : node.channel.feed word = .ok { node.channel with input := node.channel.input ++ [word] } := by
        simp [Channel.feed, Channel.feedAll, rest]
      obtain ⟨inside, same⟩ := List.getElem?_eq_some_iff.mp present
      refine .inl ⟨inside, ?_⟩
      simp only [accepted, feedNode, push, withChannel]
      congr 2
      refine List.ext_getElem? fun i => ?_
      rw [List.getElem?_modify, List.getElem?_modify]
      by_cases here : index = i
      · subst here
        simp [present, Node.fed]
      · simp [here]

theorem push_nodes (net : Network) (index : Nat) (word : Word) (i : Nat) :
    (net.push index word).nodes[i]? = net.nodes[i]?.map (·.fed (if index = i then [word] else [])) := by
  simp only [push, List.getElem?_modify]
  by_cases here : index = i
  · simp [here]
  · simp [here, Node.fed_nil]

theorem push_length (net : Network) (index : Nat) (word : Word) :
    (net.push index word).nodes.length = net.nodes.length := List.length_modify ..

end Network

section
variable {net net' : Network} (length : net'.nodes.length = net.nodes.length)
include length

theorem Network.Addressed.of_length {address : Word} {index : Nat} (addressed : net.Addressed address index) :
    net'.Addressed address index := ⟨addressed.1, length ▸ addressed.2⟩

theorem Router.Phase.Sound.of_length {phase : Phase} (sound : phase.Sound net) : phase.Sound net' := by
  cases phase with
  | feeding index rest packet origin => exact ⟨sound.1.of_length length, sound.2⟩
  | spreading index rest payload reached => exact ⟨length ▸ sound.1, sound.2⟩
  | _ => trivial

/-- What has been done in due form stays so, as nodes at rest stay at rest. -/
theorem Errand.Lawful.later {errand : Errand} (rests : ∀ i, net.isLive i = false → net'.isLive i = false)
    (lawful : errand.Lawful net) : errand.Lawful net' := by
  cases errand with
  | delivery packet origin index => exact lawful.of_length length
  | stray packet origin => exact lawful.imp id fun outside => length ▸ outside
  | refusal packet origin index part =>
    obtain ⟨addressed, rest, part⟩ := lawful
    exact ⟨addressed.of_length length, rests index rest, part⟩
  | spread index payload part =>
    obtain ⟨inside, part, whole⟩ := lawful
    exact ⟨length ▸ inside, part, whole.imp id (rests index)⟩
  | idle => trivial

end

namespace Duty

theorem spreads_of_lt {index size : Nat} (inside : index < size) (payload : List Word) :
    spreads index size payload = .spread index payload :: spreads (index + 1) size payload := by
  have left : size - index = size - (index + 1) + 1 := by omega
  rw [spreads, left, List.range'_succ]
  rfl

theorem spreads_of_le {index size : Nat} (beyond : size ≤ index) (payload : List Word) :
    spreads index size payload = [] := by
  rw [spreads, Nat.sub_eq_zero_of_le beyond]
  rfl

end Duty

/-! ## The books of a router -/

namespace Router
variable {σ : Type} {net net' : Network} {r r' : Router (σ × Minutes)}

/-- An action of the router: the errands done with it, the packets taken, the words fed to each node and what goes
    into the minutes. They balance with what the router was busy with before and is busy with afterwards. -/
structure Balance (net net' : Network) (r r' : Router (σ × Minutes)) (done : List Errand) (taken : List Packet)
    (fed : Nat → List Word) (told : Minutes) : Prop where
  config : net'.config = net.config
  shuttingDown : net'.shuttingDown = net.shuttingDown
  bus : net.bus = taken ++ net'.bus
  nodes : ∀ i, net'.nodes[i]? = net.nodes[i]?.map (Node.fed · (fed i))
  absent : ∀ i, net.nodes[i]? = none → fed i = []
  minutes : r'.supervisor.2 = r.supervisor.2 ++ told
  packets : r.phase.carried ++ taken = done.flatMap Errand.taken ++ r'.phase.carried
  words : ∀ i, r.phase.fed i ++ fed i = done.flatMap (Errand.feeds i) ++ r'.phase.fed i
  pending : r.phase.pending ++ done.flatMap Errand.notices = told.notices ++ r'.phase.pending
  duties : r.phase.ahead net.nodes.length ++ told.duties net.nodes.length =
    done.flatMap Errand.discharged ++ r'.phase.ahead net.nodes.length
  lawful : ∀ errand ∈ done, errand.Lawful net'
  sound : r'.phase.Sound net'

/-- The networks differ at most in what has been reported. -/
structure Still (net net' : Network) : Prop where
  config : net'.config = net.config
  shuttingDown : net'.shuttingDown = net.shuttingDown
  bus : net'.bus = net.bus
  nodes : net'.nodes = net.nodes

theorem Still.refl (net : Network) : Still net net := ⟨rfl, rfl, rfl, rfl⟩

theorem Balance.of_still {done : List Errand} {told : Minutes} (still : Still net net')
    (minutes : r'.supervisor.2 = r.supervisor.2 ++ told)
    (packets : r.phase.carried = done.flatMap Errand.taken ++ r'.phase.carried)
    (words : ∀ i, r.phase.fed i = done.flatMap (Errand.feeds i) ++ r'.phase.fed i)
    (pending : r.phase.pending ++ done.flatMap Errand.notices = told.notices ++ r'.phase.pending)
    (duties : r.phase.ahead net.nodes.length ++ told.duties net.nodes.length =
      done.flatMap Errand.discharged ++ r'.phase.ahead net.nodes.length)
    (lawful : ∀ errand ∈ done, errand.Lawful net') (sound : r'.phase.Sound net') :
    Balance net net' r r' done [] (fun _ => []) told where
  config := still.config
  shuttingDown := still.shuttingDown
  bus := still.bus.symm
  nodes i := by simp [still.nodes, Node.fed_nil]
  absent _ _ := rfl
  minutes := minutes
  packets := by rw [List.append_nil, packets]
  words i := by rw [List.append_nil, words]
  pending := pending
  duties := duties
  lawful := lawful
  sound := sound

/-- What the router has come to balances with what it was. -/
def Balanced (r : Router (σ × Minutes)) (net : Network) (after : Router (σ × Minutes) × Network) : Prop :=
  ∃ done taken fed told, Balance net after.2 r after.1 done taken fed told

/-- The router goes on with the errand it is busy with, or with none. -/
theorem Balanced.of_busy (still : Still net net') (supervisor : r'.supervisor = r.supervisor)
    (carried : r'.phase.carried = r.phase.carried) (fed : ∀ i, r'.phase.fed i = r.phase.fed i)
    (pending : r'.phase.pending = r.phase.pending)
    (ahead : r'.phase.ahead net.nodes.length = r.phase.ahead net.nodes.length) (sound : r'.phase.Sound net') :
    r.Balanced net (r', net') := by
  refine ⟨[], [], fun _ => [], [], .of_still still ?_ carried.symm (fun i => (fed i).symm) ?_ ?_
    (List.forall_mem_nil _) sound⟩
  · rw [supervisor, List.append_nil]
  · rw [pending]
    exact List.append_nil _
  · rw [ahead]
    exact List.append_nil _

/-- The router is through with an errand. -/
theorem Balanced.of_done (errand : Errand) (still : Still net net') (supervisor : r'.supervisor = r.supervisor)
    (taken : r.phase.carried = errand.taken ++ r'.phase.carried)
    (fed : ∀ i, r.phase.fed i = errand.feeds i ++ r'.phase.fed i)
    (notices : r.phase.pending ++ errand.notices = r'.phase.pending)
    (duties : r.phase.ahead net.nodes.length = errand.discharged ++ r'.phase.ahead net.nodes.length)
    (lawful : errand.Lawful net') (sound : r'.phase.Sound net') : r.Balanced net (r', net') := by
  refine ⟨[errand], [], fun _ => [], [], .of_still still ?_ ?_ (fun i => ?_) ?_ ?_ ?_ sound⟩
  · rw [supervisor, List.append_nil]
  · rw [List.flatMap_singleton, taken]
  · rw [List.flatMap_singleton, fed]
  · rw [List.flatMap_singleton, notices]
    rfl
  · rw [List.flatMap_singleton, ← duties]
    exact List.append_nil _
  · intro errand' member
    rw [List.mem_singleton.mp member]
    exact lawful

/-- The router is through with a packet that it could not deliver. -/
theorem refused_balanced {packet : Packet} {origin : Origin} (errand : Errand) (taken : r.phase.carried = errand.taken)
    (fed : ∀ i, r.phase.fed i = errand.feeds i) (idle : r.phase.pending = [])
    (notices : errand.notices = match origin with | .bus => [.unroutable packet] | .supervisor => [])
    (ahead : r.phase.ahead net.nodes.length = errand.discharged) (lawful : errand.Lawful net) :
    r.Balanced net (r.refused net packet origin) := by
  have packets : r.phase.carried = errand.taken ++ [] := by rw [taken, List.append_nil]
  have words (i : Nat) : r.phase.fed i = errand.feeds i ++ [] := by rw [fed, List.append_nil]
  have told : r.phase.pending ++ errand.notices = errand.notices := by rw [idle, List.nil_append]
  have duties : r.phase.ahead net.nodes.length = errand.discharged ++ [] := by rw [ahead, List.append_nil]
  cases origin with
  | bus => exact .of_done errand (.refl net) rfl packets words (told.trans notices) duties lawful trivial
  | supervisor =>
    exact .of_done errand ⟨rfl, rfl, rfl, rfl⟩ rfl packets words (told.trans notices) duties lawful trivial

theorem take_of_suffix {payload rest : List Word} {word : Word} (suffix : word :: rest <:+ payload) :
    payload.take (payload.length - (word :: rest).length) ++ [word] = payload.take (payload.length - rest.length) := by
  obtain ⟨part, rfl⟩ := suffix
  have before : (part ++ word :: rest).length - (word :: rest).length = part.length := by
    rw [List.length_append, Nat.add_sub_cancel]
  have after : (part ++ word :: rest).length - rest.length = (part ++ [word]).length := by
    simp only [List.length_append, List.length_cons, List.length_nil]
    omega
  rw [before, after, List.take_left, List.append_cons part word rest, List.take_left]

/-- What has been fed is not all as long as something is left. -/
theorem take_ne_of_suffix {payload rest : List Word} {word : Word} (suffix : word :: rest <:+ payload) :
    payload.take (payload.length - (word :: rest).length) ≠ payload := by
  intro all
  have length := congrArg List.length all
  have left := suffix.length_le
  rw [List.length_take] at length
  rw [List.length_cons] at length left
  omega

/-- A word is fed to a node. -/
theorem pushed_balanced {index : Nat} {word : Word} {phase : Phase} (inside : index < net.nodes.length)
    (carried : phase.carried = r.phase.carried)
    (fed : ∀ i, phase.fed i = r.phase.fed i ++ if index = i then [word] else [])
    (pending : phase.pending = r.phase.pending)
    (ahead : phase.ahead net.nodes.length = r.phase.ahead net.nodes.length)
    (sound : phase.Sound (net.push index word)) : r.Balanced net ({ r with phase }, net.push index word) := by
  have balance : Balance net (net.push index word) r { r with phase } [] [] (fun i => if index = i then [word] else [])
      [] :=
    { config := rfl
      shuttingDown := rfl
      bus := rfl
      nodes := net.push_nodes index word
      absent := fun i absent => if_neg fun here => by simp [← here, inside] at absent
      minutes := (List.append_nil _).symm
      packets := by rw [carried, List.append_nil, List.flatMap_nil, List.nil_append]
      words := fun i => by rw [fed, List.flatMap_nil, List.nil_append]
      pending := by
        rw [pending, List.flatMap_nil, List.append_nil]
        rfl
      duties := by
        rw [ahead]
        exact List.append_nil _
      lawful := List.forall_mem_nil _
      sound := sound }
  exact ⟨_, _, _, _, balance⟩

section
variable {index reached : Nat} {word : Word} {rest payload : List Word} {packet : Packet} {origin : Origin}

theorem fed_push (suffix : word :: rest <:+ payload) (i : Nat) :
    (if index = i then payload.take (payload.length - rest.length) else []) =
      (if index = i then payload.take (payload.length - (word :: rest).length) else []) ++
        if index = i then [word] else [] := by
  by_cases here : index = i
  · rw [if_pos here, if_pos here, if_pos here, take_of_suffix suffix]
  · rw [if_neg here, if_neg here, if_neg here]
    rfl

theorem pushed_feeding (phase : r.phase = .feeding index (word :: rest) packet origin) (sound : r.phase.Sound net) :
    r.Balanced net ({ r with phase := .feeding index rest packet origin }, net.push index word) := by
  rw [phase] at sound
  obtain ⟨found, suffix⟩ := sound
  have left : (Phase.feeding index rest packet origin).Sound net := ⟨found, (List.suffix_cons word rest).trans suffix⟩
  refine pushed_balanced found.2 ?_ (fun i => ?_) ?_ ?_ (left.of_length (net.push_length index word))
  · rw [phase]
    cases origin <;> rfl
  · rw [phase]
    exact fed_push suffix i
  · rw [phase]
    rfl
  · rw [phase]
    cases origin <;> rfl

theorem pushed_spreading (phase : r.phase = .spreading index (word :: rest) payload reached)
    (sound : r.phase.Sound net) :
    r.Balanced net ({ r with phase := .spreading index rest payload reached }, net.push index word) := by
  rw [phase] at sound
  obtain ⟨inside, suffix⟩ := sound
  have left : (Phase.spreading index rest payload reached).Sound net :=
    ⟨inside, (List.suffix_cons word rest).trans suffix⟩
  refine pushed_balanced inside ?_ (fun i => ?_) ?_ ?_ (left.of_length (net.push_length index word))
  · rw [phase]
    rfl
  · rw [phase]
    exact fed_push suffix i
  · rw [phase]
    rfl
  · rw [phase]
    rfl

end

/-! ## The actions of a router -/

/-- The router is busy with nothing before and after. -/
theorem Balanced.of_blank (still : Still net net') (supervisor : r'.supervisor = r.supervisor)
    (before : r.phase.Blank) (after : r'.phase.Blank) (sound : r'.phase.Sound net') : r.Balanced net (r', net') := by
  obtain ⟨carried, fed, pending, ahead⟩ := before
  obtain ⟨carried', fed', pending', ahead'⟩ := after
  exact .of_busy still supervisor (carried'.trans carried.symm) (fun i => (fed' i).trans (fed i).symm)
    (pending'.trans pending.symm) ((ahead' _).trans (ahead _).symm) sound

section
variable {supervise : Supervisor σ} {late : Bool} {stats : NetworkStats} {supervisor : σ × Minutes}
  {index reached : Nat} {rest payload : List Word} {packet : Packet} {origin : Origin}

theorem receiving_balanced : Balanced ⟨.receiving, stats, supervisor⟩ net
    (step supervise.recorded late ⟨.receiving, stats, supervisor⟩ net) := by
  simp only [step]
  cases bus : net.bus with
  | cons packet bus' =>
    refine ⟨[], [packet], fun _ => [], [], rfl, rfl, bus, ?_, fun _ _ => rfl, ?_, rfl, fun _ => rfl, rfl, rfl,
      List.forall_mem_nil _, trivial⟩
    · intro i
      simp [Node.fed_nil]
    · exact (List.append_nil _).symm
  | nil =>
    simp only
    by_cases gone : net.isDisconnected
    · rw [if_pos gone]
      exact .of_blank ⟨rfl, rfl, bus.symm, rfl⟩ rfl Phase.blank_receiving Phase.blank_stopped trivial
    · rw [if_neg gone]
      cases late with
      | true => exact .of_blank (.refl net) rfl Phase.blank_receiving Phase.blank_surveyingBus trivial
      | false => exact .of_blank (.refl net) rfl Phase.blank_receiving Phase.blank_receiving trivial

theorem routing_balanced : Balanced ⟨.routing packet origin, stats, supervisor⟩ net
    (step supervise.recorded late ⟨.routing packet origin, stats, supervisor⟩ net) := by
  simp only [step]
  rcases net.index?_cases packet.destination with ⟨absent, indexed⟩ | ⟨index, found, indexed⟩
  · rw [indexed]
    refine refused_balanced (.stray packet origin) ?_ (fun _ => rfl) rfl ?_ ?_ absent
    · cases origin <;> rfl
    · cases origin <;> rfl
    · cases origin <;> rfl
  · rw [indexed]
    simp only
    by_cases live : net.isLive index
    · rw [if_pos live]
      refine .of_busy (.refl net) rfl ?_ (fun i => ?_) rfl ?_ ⟨found, List.suffix_rfl⟩
      · cases origin <;> rfl
      · simp [Phase.fed]
      · cases origin <;> rfl
    · rw [if_neg live]
      have atRest : net.isLive index = false := Bool.eq_false_iff.mpr live
      refine refused_balanced (.refusal packet origin index []) ?_ (fun i => ?_) rfl ?_ ?_
        ⟨found, atRest, List.nil_prefix, .inl rfl⟩
      · cases origin <;> rfl
      · simp [Phase.fed, Errand.feeds]
      · cases origin <;> rfl
      · cases origin <;> rfl

theorem feeding_balanced (sound : (Phase.feeding index rest packet origin).Sound net) :
    Balanced ⟨.feeding index rest packet origin, stats, supervisor⟩ net
      (step supervise.recorded late ⟨.feeding index rest packet origin, stats, supervisor⟩ net) := by
  obtain ⟨found, suffix⟩ := sound
  cases rest with
  | nil =>
    refine .of_done (.delivery packet origin index) (.refl net) rfl ?_ (fun i => ?_) ?_ ?_ found trivial
    · cases origin <;> rfl
    · simp [delivered, Phase.fed, Errand.feeds]
    · cases origin <;> rfl
    · cases origin <;> rfl
  | cons word rest =>
    simp only [step]
    rcases net.feedNode_cases index word with ⟨-, fed⟩ | ⟨atRest, refused⟩
    · rw [fed]
      exact pushed_feeding rfl ⟨found, suffix⟩
    · rw [refused]
      let part := packet.payload.take (packet.payload.length - (word :: rest).length)
      refine refused_balanced (.refusal packet origin index part) ?_ (fun _ => rfl) rfl ?_ ?_
        ⟨found, atRest, List.take_prefix _ _, .inr (take_ne_of_suffix suffix)⟩
      · cases origin <;> rfl
      · cases origin <;> rfl
      · cases origin <;> rfl

theorem surveying_balanced : Balanced ⟨.surveying index, stats, supervisor⟩ net
    (step supervise.recorded late ⟨.surveying index, stats, supervisor⟩ net) := by
  have blank := Phase.blank_surveying
  simp only [step]
  cases net.nodes[index]? with
  | none => exact .of_done .idle (.refl net) rfl rfl (fun _ => rfl) rfl rfl trivial trivial
  | some node =>
    simp only
    cases node.channel.input.isEmpty with
    | true => exact .of_blank (.refl net) rfl (blank index) (blank (index + 1)) trivial
    | false => exact .of_blank (.refl net) rfl (blank index) Phase.blank_receiving trivial

theorem consulting_balanced {notice : Notice} : Balanced ⟨.consulting notice, stats, supervisor⟩ net
    (step supervise.recorded late ⟨.consulting notice, stats, supervisor⟩ net) := by
  simp only [step, Supervisor.recorded]
  rcases supervise supervisor.1 notice with ⟨control, memory⟩
  refine ⟨[], [], fun _ => [], [(notice, control)],
    .of_still (.refl net) ?_ ?_ (fun i => ?_) ?_ ?_ (List.forall_mem_nil _) ?_⟩
  · cases control <;> rfl
  · cases control <;> rfl
  · cases control <;> rfl
  · cases control <;> rfl
  · cases control with
    | broadcast payload => exact List.append_nil _
    | proceed | send | stop => rfl
  · cases control <;> trivial

theorem broadcasting_balanced : Balanced ⟨.broadcasting index payload reached, stats, supervisor⟩ net
    (step supervise.recorded late ⟨.broadcasting index payload reached, stats, supervisor⟩ net) := by
  simp only [step]
  cases present : net.nodes[index]? with
  | none =>
    have beyond := Duty.spreads_of_le (List.getElem?_eq_none_iff.mp present) payload
    exact .of_busy (.refl net) rfl rfl (fun _ => rfl) rfl beyond.symm trivial
  | some node =>
    obtain ⟨inside, -⟩ := List.getElem?_eq_some_iff.mp present
    cases live : net.isLive index with
    | true =>
      refine .of_busy (.refl net) rfl rfl (fun i => ?_) rfl rfl ⟨inside, List.suffix_rfl⟩
      simp [Phase.fed]
    | false =>
      refine .of_done (.spread index payload []) (.refl net) rfl rfl (fun i => ?_) rfl
        (Duty.spreads_of_lt inside payload) ⟨inside, List.nil_prefix, .inr live⟩ trivial
      simp [Phase.fed, Errand.feeds]

theorem spreading_balanced (sound : (Phase.spreading index rest payload reached).Sound net) :
    Balanced ⟨.spreading index rest payload reached, stats, supervisor⟩ net
      (step supervise.recorded late ⟨.spreading index rest payload reached, stats, supervisor⟩ net) := by
  obtain ⟨inside, suffix⟩ := sound
  have next := Duty.spreads_of_lt inside payload
  cases rest with
  | nil =>
    refine .of_done (.spread index payload payload) (.refl net) rfl rfl (fun i => ?_) rfl next
      ⟨inside, List.prefix_rfl, .inl rfl⟩ trivial
    simp [Phase.fed, Errand.feeds]
  | cons word rest =>
    simp only [step]
    rcases net.feedNode_cases index word with ⟨-, fed⟩ | ⟨atRest, refused⟩
    · rw [fed]
      exact pushed_spreading rfl ⟨inside, suffix⟩
    · rw [refused]
      let part := payload.take (payload.length - (word :: rest).length)
      refine .of_done (.spread index payload part) (.refl net) rfl rfl (fun i => ?_) rfl next
        ⟨inside, List.take_prefix _ _, .inr atRest⟩ trivial
      exact (List.append_nil _).symm

end

/-- Every action of the router balances. -/
theorem step_balanced (supervise : Supervisor σ) (late : Bool) (sound : r.phase.Sound net) :
    r.Balanced net (r.step supervise.recorded late net) := by
  obtain ⟨phase, stats, supervisor⟩ := r
  cases phase with
  | receiving => exact receiving_balanced
  | routing packet origin => exact routing_balanced
  | feeding index rest packet origin => exact feeding_balanced sound
  | surveyingBus =>
    simp only [step]
    cases net.bus.isEmpty with
    | true => exact .of_blank (.refl net) rfl Phase.blank_surveyingBus (Phase.blank_surveying 0) trivial
    | false => exact .of_blank (.refl net) rfl Phase.blank_surveyingBus Phase.blank_receiving trivial
  | surveying index => exact surveying_balanced
  | consulting notice => exact consulting_balanced
  | broadcasting index payload reached => exact broadcasting_balanced
  | spreading index rest payload reached => exact spreading_balanced sound
  | stopped => exact .of_blank (.refl net) rfl Phase.blank_stopped Phase.blank_stopped trivial

/-- Feeds the next word without a look at the run state. The look has come before, and the machine may have come to
    rest since. -/
def post (r : Router σ) (net : Network) : Router σ × Network :=
  match r.phase with
  | .feeding index (word :: rest) packet origin =>
    ({ r with phase := .feeding index rest packet origin }, net.push index word)
  | .spreading index (word :: rest) payload reached =>
    ({ r with phase := .spreading index rest payload reached }, net.push index word)
  | _ => (r, net)

theorem post_balanced (sound : r.phase.Sound net) : r.Balanced net (r.post net) := by
  unfold post
  split
  · rename_i phase
    exact pushed_feeding phase sound
  · rename_i phase
    exact pushed_spreading phase sound
  · exact .of_busy (.refl net) rfl rfl (fun _ => rfl) rfl rfl sound

end Router

end IntegerMachine
