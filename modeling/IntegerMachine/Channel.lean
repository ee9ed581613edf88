import IntegerMachine.Config
import IntegerMachine.Failure

/-!
# Channels

The channel of a machine holds its run state and two queues: the input, which the outside world feeds
and the program reads, and the output, which the program writes and the outside world consumes. All
traffic with a machine goes through its channel, which outlives the machine itself.

The operations here are those of a single party. A wait on an empty queue then has only two ends:
the machine is at rest, so that the queue stays empty, or the wait runs out.
-/
namespace IntegerMachine

/-- The queues of a machine, oldest word first, and its run state. The input is taken from the front, and
    the output grows at the back. -/
structure Channel where
  program : String
  state : RunState
  input : List Word
  output : Array Word
  ioTimeout : Duration
  pollInterval : Duration
  deriving DecidableEq

namespace Channel

def ofConfig (config : Config) : Channel where
  program := config.name
  state := .initialising
  input := []
  output := #[]
  ioTimeout := config.ioTimeout
  pollInterval := config.pollInterval

/-! ## The run state -/

/-- Moves from one state to another. There is no result if the state is a different one. -/
def transition? (c : Channel) (source target : RunState) : Option Channel :=
  if c.state = source then some { c with state := target } else none

/-- Halts the machine unless it is at rest already, and tells whether this call did it. -/
def halt (c : Channel) : Bool × Channel :=
  if c.state.isTerminal then (false, c) else (true, { c with state := .halted })

/-! ## The queues -/

def queued (c : Channel) : Queue → List Word
  | .input => c.input
  | .output => c.output.toList

def withQueued (c : Channel) : Queue → List Word → Channel
  | .input, words => { c with input := words }
  | .output, words => { c with output := words.toArray }

def pop? (c : Channel) (queue : Queue) : Option (Word × Channel) :=
  match c.queued queue with
  | [] => none
  | word :: rest => some (word, c.withQueued queue rest)

def emit (c : Channel) (word : Word) : Channel := { c with output := c.output.push word }

def closed (c : Channel) (queue : Queue) : Failure := .closed c.program queue c.state

def timedOut (c : Channel) (queue : Queue) : Failure := .timeout c.program queue c.ioTimeout

/-- The failure of a wait on an empty queue. -/
def starved (c : Channel) (queue : Queue) : Failure :=
  if c.state.isTerminal then c.closed queue else c.timedOut queue

/-- Takes the oldest word off a queue, waiting for one if there is none. The deadline is set before the first look at
    the queue, so that a wait without one breaks down even if there is a word. -/
def wait (c : Channel) (queue : Queue) : Except Failure Word × Channel :=
  if c.ioTimeout.isTimable then
    match c.pop? queue with
    | some (word, c) => (.ok word, c)
    | none => (.error (c.starved queue), c)
  else (.error (.beyondCapacity c.program), c)

/-! ## Feeding -/

/-- Appends words to the input. A machine at rest cannot be fed, but no words at all are always
    accepted. -/
def feedAll (c : Channel) (words : List Word) : Except Failure Channel :=
  if c.state.isTerminal && !words.isEmpty then .error (.invalidState c.program .feed c.state)
  else .ok { c with input := c.input ++ words }

def feed (c : Channel) (word : Word) : Except Failure Channel := c.feedAll [word]

def feedText (c : Channel) (text : String) : Except Failure Channel :=
  c.feedAll (Word.ofText text.toList)

/-! ## Consuming -/

def tryConsume (c : Channel) : Option Word × Channel :=
  match c.pop? .output with
  | some (word, c) => (some word, c)
  | none => (none, c)

def consume (c : Channel) : Except Failure Word × Channel := c.wait .output

def consumeUpTo (c : Channel) (n : Nat) : List Word × Channel :=
  let words := c.queued .output
  (words.take n, c.withQueued .output (words.drop n))

/-- Takes exactly `n` words off the output, waiting for them to arrive. If there are fewer the wait fails,
    and the words taken up to then are lost. The deadline and the room for the words are seen to first. -/
def awaitOutput (c : Channel) (n : Nat) : Except Failure (List Word) × Channel :=
  if c.ioTimeout.isTimable ∧ n ≤ Word.capacity then
    let words := c.queued .output
    if n ≤ words.length then (.ok (words.take n), c.withQueued .output (words.drop n))
    else (.error (c.starved .output), c.withQueued .output [])
  else (.error (.beyondCapacity c.program), c)

def drain (c : Channel) : List Word × Channel := (c.queued .output, c.withQueued .output [])

end Channel

end IntegerMachine
