import IntegerMachine.Lockstep

/-!
# Pipelines

A chain of cooperative machines in which each stage feeds the next. With feedback the last stage also
feeds the first, so that the chain becomes a loop.
-/
namespace IntegerMachine

structure Pipeline where
  stages : List Machine
  feedback : Bool

namespace Pipeline

def links (p : Pipeline) : Links :=
  (List.range p.stages.length).map fun i =>
    if i + 1 < p.stages.length then some (i + 1)
    else if p.feedback ∧ 0 < i then some 0
    else none

def feed (p : Pipeline) (words : List Word) : Except Failure Pipeline :=
  match p.stages with
  | [] => .ok p
  | first :: rest =>
    (first.channel.feedAll words).map fun channel =>
      { p with stages := { first with channel } :: rest }

/-- Runs the chain until a round is silent, and answers the last word its final stage wrote. -/
def run (fuel : Nat) (p : Pipeline) : Option (GroupOutcome (Option Word)) :=
  if p.stages.isEmpty then some ⟨.ok none, [], #[]⟩
  else
    match Lockstep.run fuel p.links p.stages with
    | none => none
    | some ⟨.error failure, stages, events⟩ => some ⟨.error failure, stages, events⟩
    | some ⟨.ok quiescence, stages, events⟩ =>
      match stages.getLast? with
      | none => some ⟨.ok none, stages, events⟩
      | some last =>
        let events :=
          if last.state = .ended then events
          else events.push (.unfinished quiescence.rounds last.state)
        some ⟨.ok last.lastOutput, stages, events⟩

end Pipeline

end IntegerMachine
