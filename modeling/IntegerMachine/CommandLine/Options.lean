import IntegerMachine.Numeral

/-!
# Command line options

The command line names a program file and may carry options. Long options take their value after an
equals sign or as the next argument; an argument that starts with a hyphen is never the value of the
option before it. Two hyphens alone end the options. An option may be given once, patches excepted.
-/
namespace IntegerMachine.CommandLine

structure Options where
  program : String
  input : Option String
  /-- Patches of memory, each an address and a value. -/
  pokes : List String
  ascii : Bool
  trace : Bool
  disassemble : Bool
  dump : Bool
  ioTimeoutMs : Nat
  deriving DecidableEq

inductive Request where
  | run (options : Options)
  | version
  | help
  | misuse
  deriving DecidableEq

/-- The options read so far. -/
structure Draft where
  program : Option String := none
  input : Option String := none
  pokes : List String := []
  ascii : Bool := false
  trace : Bool := false
  disassemble : Bool := false
  dump : Bool := false
  ioTimeoutMs : Option Nat := none

namespace Draft

def request (d : Draft) : Request :=
  match d.program with
  | none => .misuse
  | some program =>
    .run
      { program
        input := d.input
        pokes := d.pokes
        ascii := d.ascii
        trace := d.trace
        disassemble := d.disassemble
        dump := d.dump
        ioTimeoutMs := d.ioTimeoutMs.getD 1000 }

/-- Takes the path of the program. It must not be empty, and there is only one. -/
def withProgram (d : Draft) (path : String) : Option Draft :=
  if path.isEmpty ∨ d.program.isSome then none else some { d with program := some path }

def withFlag (d : Draft) (name : String) : Option Draft :=
  if name = "ascii" then if d.ascii then none else some { d with ascii := true }
  else if name = "trace" then if d.trace then none else some { d with trace := true }
  else if name = "disassemble" then
    if d.disassemble then none else some { d with disassemble := true }
  else if name = "dump" then if d.dump then none else some { d with dump := true }
  else none

def withValue (d : Draft) (name value : String) : Option Draft :=
  if name = "input" then if d.input.isSome then none else some { d with input := some value }
  else if name = "poke" then some { d with pokes := d.pokes ++ [value] }
  else if name = "io-timeout-ms" then
    if d.ioTimeoutMs.isSome then none
    else
      match Numeral.toSize value.toList with
      | .ok n => some { d with ioTimeoutMs := some n }
      | .error _ => none
  else none

end Draft

def valueOptions : List String := ["input", "poke", "io-timeout-ms"]

/-- What an argument is, as long as options have not been ended. -/
inductive Argument where
  | endOfOptions
  | long (name : String) (value : Option String)
  | short (letter : Char)
  | plain (text : String)
  deriving DecidableEq

def splitValue (cs : List Char) : String × Option String :=
  let name := String.ofList (cs.takeWhile (· != '='))
  match cs.dropWhile (· != '=') with
  | _ :: value => (name, some (String.ofList value))
  | [] => (name, none)

/-- Tells what an argument is. A single hyphen is plain text. -/
def classify (text : String) : Argument :=
  match text.toList with
  | ['-', '-'] => .endOfOptions
  | '-' :: '-' :: rest =>
    let (name, value) := splitValue rest
    .long name value
  | '-' :: letter :: _ => .short letter
  | _ => .plain text

def readPlain : List String → Draft → Request
  | [], d => d.request
  | path :: rest, d =>
    match d.withProgram path with
    | some d => readPlain rest d
    | none => .misuse

def readArguments : List String → Draft → Request
  | [], d => d.request
  | text :: rest, d =>
    match classify text with
    | .endOfOptions => readPlain rest d
    | .short 'V' => .version
    | .short 'h' => .help
    | .short _ => .misuse
    | .plain path =>
      match d.withProgram path with
      | some d => readArguments rest d
      | none => .misuse
    | .long name (some value) =>
      match d.withValue name value with
      | some d => readArguments rest d
      | none => .misuse
    | .long name none =>
      if name = "version" then .version
      else if name = "help" then .help
      else if valueOptions.contains name then
        match rest with
        | [] => .misuse
        | next :: rest =>
          match classify next with
          | .plain value =>
            match d.withValue name value with
            | some d => readArguments rest d
            | none => .misuse
          | _ => .misuse
      else
        match d.withFlag name with
        | some d => readArguments rest d
        | none => .misuse

def parse (arguments : List String) : Request := readArguments arguments {}

end IntegerMachine.CommandLine
