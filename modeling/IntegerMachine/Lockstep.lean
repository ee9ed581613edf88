import IntegerMachine.Machine.Lifecycle

/-!
# Lockstep

Several cooperative machines driven in rounds. In a round every machine that is not at rest is resumed
once, in the order of the machines, and the output of a linked machine is moved to the input of its
peer. Rounds go on until one in which no machine wrote any output.
-/
namespace IntegerMachine

/-- Where the output of each machine goes; the output of a machine without a link stays where it is. -/
abbrev Links := List (Option Nat)

/-- A link that names a machine outside of the group. -/
structure LinkError where
  source : Nat
  target : Nat
  count : Nat
  deriving DecidableEq

def LinkError.message (e : LinkError) : String :=
  "link " ++ e.source.repr ++ " -> " ++ e.target.repr ++ " outside of " ++ e.count.repr ++ " machines"

structure Quiescence where
  /-- The number of rounds, the last and silent one included. -/
  rounds : Nat
  allEnded : Bool
  deriving DecidableEq

structure GroupOutcome (α : Type) where
  result : Except Failure α
  machines : List Machine
  events : Array Event

namespace Lockstep

def unlinked (count : Nat) : Links := List.replicate count none

/-- Adds a link. A later link of the same machine replaces an earlier one. -/
def link (links : Links) (source target : Nat) : Except LinkError Links :=
  if source < links.length ∧ target < links.length then .ok (links.set source (some target))
  else .error ⟨source, target, links.length⟩

def linkAll (links : Links) : List (Nat × Nat) → Except LinkError Links
  | [] => .ok links
  | (source, target) :: rest => do linkAll (← link links source target) rest

/-- Moves the output of one machine to the input of another. If that one is at rest the words are
    dropped. -/
def forward (machines : List Machine) (source target : Nat) : GroupOutcome Unit :=
  match machines[source]? with
  | none => ⟨.ok (), machines, #[]⟩
  | some sender =>
    let (words, channel) := sender.channel.drain
    let machines := machines.set source { sender with channel }
    match machines[target]? with
    | none => ⟨.ok (), machines, #[]⟩
    | some receiver =>
      if receiver.state.isTerminal then
        ⟨.ok (), machines, #[.peerTerminated sender.name receiver.name words.length]⟩
      else
        match receiver.channel.feedAll words with
        | .ok channel => ⟨.ok (), machines.set target { receiver with channel }, #[]⟩
        | .error failure => ⟨.error failure, machines, #[]⟩

/-- The turn of one machine: it is resumed and its output forwarded. The result tells whether it wrote
    any output. A machine at rest sits out. -/
def turn (fuel : Nat) (links : Links) (machines : List Machine) (index : Nat) :
    Option (GroupOutcome Bool) :=
  match machines[index]? with
  | none => some ⟨.ok false, machines, #[]⟩
  | some m =>
    if m.state.isTerminal then some ⟨.ok false, machines, #[]⟩
    else
      match m.resume fuel with
      | none => none
      | some ⟨.error failure, m, events⟩ =>
        some ⟨.error failure, machines.set index m, events⟩
      | some ⟨.ok _, resumed, events⟩ =>
        let produced := resumed.outputCount != m.outputCount
        let machines := machines.set index resumed
        match links[index]?.join with
        | none => some ⟨.ok produced, machines, events⟩
        | some target =>
          match forward machines index target with
          | ⟨.ok (), machines, more⟩ => some ⟨.ok produced, machines, events ++ more⟩
          | ⟨.error failure, machines, more⟩ => some ⟨.error failure, machines, events ++ more⟩

def turns (fuel : Nat) (links : Links) :
    List Nat → Bool → List Machine → Array Event → Option (GroupOutcome Bool)
  | [], produced, machines, log => some ⟨.ok produced, machines, log⟩
  | index :: rest, produced, machines, log =>
    match turn fuel links machines index with
    | none => none
    | some ⟨.error failure, machines, events⟩ => some ⟨.error failure, machines, log ++ events⟩
    | some ⟨.ok more, machines, events⟩ =>
      turns fuel links rest (produced || more) machines (log ++ events)

def round (fuel : Nat) (links : Links) (machines : List Machine) (log : Array Event) :
    Option (GroupOutcome Bool) :=
  turns fuel links (List.range machines.length) false machines log

/-- Rounds until one is silent. `done` rounds have gone before; `fuel` bounds both the rounds that
    follow and the cycles of each turn, for which `cycles` is spent. -/
def rounds (cycles : Nat) (links : Links) :
    Nat → Nat → List Machine → Array Event → Option (GroupOutcome Quiescence)
  | 0, _, _, _ => none
  | fuel + 1, done, machines, log =>
    match round cycles links machines log with
    | none => none
    | some ⟨.error failure, machines, log⟩ => some ⟨.error failure, machines, log⟩
    | some ⟨.ok true, machines, log⟩ => rounds cycles links fuel (done + 1) machines log
    | some ⟨.ok false, machines, log⟩ =>
      let allEnded := machines.all fun m => m.state.isTerminal
      some ⟨.ok ⟨done + 1, allEnded⟩, machines, log.push (.quiescent (done + 1) allEnded)⟩

def run (fuel : Nat) (links : Links) (machines : List Machine) : Option (GroupOutcome Quiescence) :=
  rounds fuel links fuel 0 machines #[]

end Lockstep

end IntegerMachine
