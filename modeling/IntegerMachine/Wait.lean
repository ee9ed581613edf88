import IntegerMachine.Channel

/-!
# Waiting among others

Where several parties share a channel, a wait is not one action but a loop of atomic ones, between
which the others act: look at the queue, look at the run state, look at the queue once more if the
machine is at rest, look at the clock. The clock is not part of the channel, so whether the wait is late
is told from outside. It is taken to have a deadline (`Duration.isTimable`).
-/
namespace IntegerMachine

/-- Where a party that waits on a queue stands. -/
inductive Wait where
  | polling
  /-- It found no word, and is about to look whether the machine is at rest. -/
  | checkingState
  /-- It found the machine at rest, and is about to look whether the queue is still empty. -/
  | checkingQueue
  | checkingClock
  deriving DecidableEq

namespace Wait

inductive Outcome where
  | waiting (wait : Wait)
  | received (word : Word)
  | closed
  | expired
  deriving DecidableEq

def step (queue : Queue) (late : Bool) (c : Channel) : Wait → Outcome × Channel
  | .polling =>
    match c.pop? queue with
    | some (word, c) => (.received word, c)
    | none => (.waiting .checkingState, c)
  | .checkingState =>
    (.waiting (if c.state.isTerminal then .checkingQueue else .checkingClock), c)
  | .checkingQueue =>
    if (c.queued queue).isEmpty then (.closed, c) else (.waiting .checkingClock, c)
  | .checkingClock => if late then (.expired, c) else (.waiting .polling, c)

/-- Whether a wait goes on until another party acts or the clock runs out. -/
def isBlocked (queue : Queue) (c : Channel) : Bool :=
  (c.queued queue).isEmpty && !c.state.isTerminal

end Wait

end IntegerMachine
