import IntegerMachine.CommandLine.Options
import IntegerMachine.Console
import IntegerMachine.Listing
import IntegerMachine.Machine.Display

/-!
# The command line program

Loads a program from a file, patches and feeds it, and runs it on the console; or lists it. Errors are
reported with what lies behind them.
-/
namespace IntegerMachine.CommandLine

/-- An error and what lies behind it, outermost first. -/
structure Error where
  message : String
  causes : List String
  deriving DecidableEq

namespace Error

def indentLines (indent text : String) : String := ("\n" ++ indent).intercalate (text.splitOn "\n")

/-- A number set right in five columns. -/
def numberText (n : Nat) : String :=
  let digits := n.repr
  "".pushn ' ' (5 - digits.length) ++ digits

/-- The text of the causes of an error. Several causes are numbered. -/
def causesText : List String → String
  | [] => ""
  | [cause] => "\n\nCaused by:\n    " ++ indentLines "    " cause
  | causes =>
    "\n\nCaused by:" ++ String.join (causes.zipIdx.map fun (cause, n) =>
      "\n" ++ numberText n ++ ": " ++ indentLines "       " cause)

def report (e : Error) : String := "Error: " ++ e.message ++ causesText e.causes ++ "\n"

end Error

def versionText : String := "intcode 0.1.0\n"

def helpText : String :=
  String.join <| List.map (· ++ "\n")
    ["Run a program on the integer machine",
      "",
      "Usage: intcode [OPTIONS] <PROGRAM>",
      "",
      "Arguments:",
      "  <PROGRAM>  File holding the comma separated program",
      "",
      "Options:",
      "      --input <INPUT>                  Values fed before the program starts, comma separated",
      "      --poke <ADDRESS=VALUE>           Patch memory before running, as `address=value`. May be repeated",
      "      --ascii                          Exchange text instead of numbers on the console",
      "      --trace                          Log every executed instruction",
      "      --disassemble                    Print the disassembled program and exit",
      "      --dump                           Print the memory following the halt instruction once the program ends",
      "      --io-timeout-ms <IO_TIMEOUT_MS>  Bound for blocking I/O waits, in milliseconds [default: 1000]",
      "  -h, --help                           Print help",
      "  -V, --version                        Print version"]

def fileName (path : String) : String := ((path.splitOn "/").filter (· ≠ "")).getLastD path

/-- A file name without its last extension. A dot at the start does not begin an extension. -/
def fileStem (path : String) : String :=
  let name := (fileName path).toList
  let extension := (name.reverse.takeWhile (· != '.')).length
  if extension + 1 < name.length then String.ofList (name.take (name.length - extension - 1))
  else String.ofList name

def readPoke (patch : String) : Except Error (Nat × Word) :=
  let cs := patch.toList
  match cs.dropWhile (· != '=') with
  | [] => .error ⟨"expected ADDRESS=VALUE, got `" ++ patch ++ "`", []⟩
  | _ :: value =>
    match Numeral.toSize (Text.trim (cs.takeWhile (· != '='))) with
    | .error e => .error ⟨"bad address in `" ++ patch ++ "`", [e.message]⟩
    | .ok address =>
      match Numeral.toWord (Text.trim value) with
      | .error e => .error ⟨"bad value in `" ++ patch ++ "`", [e.message]⟩
      | .ok word => .ok (address, word)

def ofFailure (failure : Failure) : Error := ⟨failure.message, failure.cause.toList⟩

def ofTextError (e : ProgramText.Error) : Error := ⟨e.message, []⟩

def ofConsoleError (e : ConsoleError) : Error := ⟨e.message, e.cause.toList⟩

def applyPokes (m : Machine) : List String → Except Error Machine
  | [] => .ok m
  | patch :: rest => do
    let (address, word) ← readPoke patch
    match m.poke address word with
    | ⟨.ok _, m, _⟩ => applyPokes m rest
    | ⟨.error failure, _, _⟩ => .error (ofFailure failure)

/-- What is to be done once the program has been read. -/
inductive Plan where
  | print (listing : String)
  | run (machine : Machine)

/-- The words of the program file, whose contents or failure is given. -/
def readProgram (path : String) (file : Except String ByteArray) : Except Error (List Word) := do
  let bytes ← file.mapError fun reason => ⟨"reading " ++ path, [reason]⟩
  match String.fromUTF8? bytes with
  | none => .error ⟨"reading " ++ path, [Console.notUtf8]⟩
  | some text => (ProgramText.parse text).mapError ofTextError

def plan (o : Options) (file : Except String ByteArray) : Except Error Plan := do
  let words ← readProgram o.program file
  if o.disassemble then return .print (Listing.disassemble words)
  let config : Config :=
    { name := fileStem o.program, trace := o.trace, ioTimeout := .ofMilliseconds o.ioTimeoutMs }
  let m ← applyPokes (Machine.ofProgram words config) o.pokes
  match o.input with
  | none => return .run m
  | some text =>
    let words ← (ProgramText.parse text).mapError ofTextError
    let channel ← (m.channel.feedAll words).mapError ofFailure
    return .run { m with channel }

def epilogue (o : Options) (state : RunState) (m : Machine) : Except Error String :=
  if o.dump ∧ state = .ended then
    (m.dumpAfterHalt.map (· ++ "\n")).mapError ofFailure
  else .ok ""

structure Report where
  exitCode : Nat
  output : String
  errors : String

def conclude (output : String) : Except Error String → Report
  | .ok errors => ⟨0, output, errors⟩
  | .error e => ⟨1, output, e.report⟩

/-- Carries out the options on a program file and an input stream. -/
def run (fuel : Nat) (o : Options) (file : Except String ByteArray) (input : ByteArray) :
    Option Report :=
  match plan o file with
  | .error e => some (conclude "" (.error e))
  | .ok (.print listing) => some (conclude listing (.ok ""))
  | .ok (.run m) =>
    (Console.run fuel (Console.ofBytes input o.ascii) m).map fun r =>
      conclude r.console.written <|
        match r.result with
        | .error e => .error (ofConsoleError e)
        | .ok state => epilogue o state r.machine

end IntegerMachine.CommandLine
