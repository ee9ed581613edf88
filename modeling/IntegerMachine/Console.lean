import IntegerMachine.Machine.Lifecycle
import IntegerMachine.Text.Blank

/-!
# The console

A console couples a cooperative machine to a stream of lines and a stream of text. Whenever the machine
comes back its output is written; when it awaits input one line is read and fed. Numbers are written one
to a line and read as program text; in ASCII mode words are characters instead, and each line is fed
byte by byte with a line feed at its end. Running out of lines halts the machine.
-/
namespace IntegerMachine

/-- A line of the input stream with its line feed, if it is valid UTF-8. -/
abbrev Line := Option String

structure Console where
  lines : List Line
  written : String
  ascii : Bool

inductive ConsoleError where
  | stream (reason : String)
  | machine (failure : Failure)
  | line (error : ProgramText.Error)
  deriving DecidableEq

namespace ConsoleError

def message : ConsoleError → String
  | .stream reason => reason
  | .machine failure => failure.message
  | .line error => "bad input line: " ++ error.message

def cause : ConsoleError → Option String
  | .stream _ => none
  | .machine failure => failure.cause
  | .line error => some error.message

end ConsoleError

namespace Console

def notUtf8 : String := "stream did not contain valid UTF-8"

def splitLines [DecidableEq α] (lineFeed : α) : List α → List (List α)
  | [] => []
  | a :: rest =>
    if a = lineFeed then [a] :: splitLines lineFeed rest
    else
      match splitLines lineFeed rest with
      | [] => [[a]]
      | line :: lines => (a :: line) :: lines

def ofText (text : String) (ascii : Bool) : Console where
  lines := (splitLines '\n' text.toList).map fun line => some (String.ofList line)
  written := ""
  ascii := ascii

/-- A console that is to read some bytes. If they are not valid UTF-8 as a whole, each line is decoded by
    itself, so that the lines in front of the first invalid one can be read. -/
def ofBytes (bytes : ByteArray) (ascii : Bool) : Console :=
  match String.fromUTF8? bytes with
  | some text => ofText text ascii
  | none =>
    { lines := (splitLines 10 bytes.toList).map fun line => String.fromUTF8? ⟨line.toArray⟩
      written := ""
      ascii := ascii }

def wordText (ascii : Bool) (word : Word) : String :=
  if ascii ∧ 0 ≤ word ∧ word ≤ 127 then (Char.ofNat word.toInt.toNat).toString
  else word.text ++ "\n"

def outputText (ascii : Bool) (words : List Word) : String :=
  String.join (words.map (wordText ascii))

/-- A line without the line feeds and carriage returns at its end. -/
def stripLineEnd (line : List Char) : List Char :=
  (line.reverse.dropWhile fun c => c == '\n' || c == '\r').reverse

def lineWords (ascii : Bool) (line : String) : Except ConsoleError (List Word) :=
  if ascii then .ok (Word.ofText (stripLineEnd line.toList) ++ [10])
  else if line.toList.all Text.isBlank then .ok []
  else
    match ProgramText.parse line with
    | .ok words => .ok words
    | .error error => .error (.line error)

def accept (ascii : Bool) (m : Machine) (line : Line) : Except ConsoleError Machine :=
  match line with
  | none => .error (.stream notUtf8)
  | some line => do
    match m.channel.feedAll (← lineWords ascii line) with
    | .ok channel => return { m with channel }
    | .error failure => throw (.machine failure)

/-- What a machine does between two lines: it runs on, and its output is taken to be written. -/
structure Turn where
  result : Except Failure RunState
  machine : Machine
  text : String
  events : Array Event

/-- Resumes a machine and takes its output. Output of a machine that fails stays where it is. -/
def turn (fuel : Nat) (ascii : Bool) (m : Machine) : Option Turn :=
  match m.resume fuel with
  | none => none
  | some ⟨.error failure, m, events⟩ => some ⟨.error failure, m, "", events⟩
  | some ⟨.ok state, m, events⟩ =>
    let (words, channel) := m.channel.drain
    some ⟨.ok state, { m with channel }, outputText ascii words, events⟩

/-- Halts a machine that awaits a line when there is none left. -/
def endOfInput (m : Machine) : Outcome RunState :=
  let o := m.halt true
  ⟨.ok o.machine.state, o.machine, #[.endOfInput m.name] ++ o.events⟩

structure Result where
  result : Except ConsoleError RunState
  machine : Machine
  console : Console
  events : Array Event

def runLines (fuel : Nat) (ascii : Bool) :
    List Line → Machine → String → Array Event → Option Result
  | lines, m, written, log =>
    match turn fuel ascii m with
    | none => none
    | some ⟨.error failure, m, text, events⟩ =>
      some ⟨.error (.machine failure), m, ⟨lines, written ++ text, ascii⟩, log ++ events⟩
    | some ⟨.ok state, m, text, events⟩ =>
      let written := written ++ text
      let log := log ++ events
      if state = .awaitingInput then
        match lines with
        | [] =>
          let o := endOfInput m
          some ⟨o.result.mapError .machine, o.machine, ⟨[], written, ascii⟩, log ++ o.events⟩
        | line :: rest =>
          match accept ascii m line with
          | .ok m => runLines fuel ascii rest m written log
          | .error error => some ⟨.error error, m, ⟨rest, written, ascii⟩, log⟩
      else some ⟨.ok state, m, ⟨lines, written, ascii⟩, log⟩

/-- Runs a machine until it is at rest, has failed or the console has. -/
def run (fuel : Nat) (console : Console) (m : Machine) : Option Result :=
  runLines fuel console.ascii console.lines m console.written #[]

end Console

end IntegerMachine
