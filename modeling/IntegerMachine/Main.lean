import IntegerMachine.CommandLine

/-!
# Entry point

Connects the command line program to files and streams. The machine runs until it awaits input before a
line is read, so that the console can be used by hand.
-/
namespace IntegerMachine.CommandLine

def readFailure : IO.Error → String
  | .noFileOrDirectory .. => "No such file or directory (os error 2)"
  | .inappropriateType .. => "Is a directory (os error 21)"
  | .permissionDenied .. => "Permission denied (os error 13)"
  | other => toString other

def readFile (path : String) : IO (Except String ByteArray) := do
  try
    return .ok (← IO.FS.readBinFile path)
  catch e => return .error (readFailure e)

/-- Reads the bytes of a line of a stream, its line feed included. -/
partial def readLine (stream : IO.FS.Stream) (line : ByteArray) : IO ByteArray := do
  let byte ← stream.read 1
  if byte.isEmpty || byte.toList = [10] then return line ++ byte
  readLine stream (line ++ byte)

def writeEvents (events : Array Event) : IO Unit := do
  for event in events do
    let fields := event.fields.map fun (name, value) => " " ++ name ++ "=" ++ value
    IO.eprintln (event.level.name ++ " " ++ event.message ++ String.join fields)

/-- The number of cycles a program may take between two lines of input. -/
def cycleLimit : Nat := 1 <<< 63

partial def interact (o : Options) (m : Machine) : IO (Except Error String) := do
  match Console.turn cycleLimit o.ascii m with
  | none => return .error ⟨"the program did not come to rest", []⟩
  | some ⟨result, m, text, events⟩ =>
    if o.trace then writeEvents events
    let out ← IO.getStdout
    out.putStr text
    out.flush
    match result with
    | .error failure => return .error (ofFailure failure)
    | .ok state =>
      if state = .awaitingInput then
        let line ← readLine (← IO.getStdin) ByteArray.empty
        if line.isEmpty then
          let outcome := Console.endOfInput m
          if o.trace then writeEvents outcome.events
          return epilogue o outcome.machine.state outcome.machine
        else
          match Console.accept o.ascii m (String.fromUTF8? line) with
          | .ok m => interact o m
          | .error e => return .error (ofConsoleError e)
      else return epilogue o state m

def finish (report : Report) : IO UInt32 := do
  IO.print report.output
  IO.eprint report.errors
  return UInt32.ofNat report.exitCode

def carryOut (arguments : List String) : IO UInt32 := do
  match parse arguments with
  | .version => finish ⟨0, versionText, ""⟩
  | .help => finish ⟨0, helpText, ""⟩
  | .misuse => finish ⟨2, "", helpText⟩
  | .run o =>
    match plan o (← readFile o.program) with
    | .error e => finish (conclude "" (.error e))
    | .ok (.print listing) => finish (conclude listing (.ok ""))
    | .ok (.run m) => finish (conclude "" (← interact o m))

end IntegerMachine.CommandLine

def main (arguments : List String) : IO UInt32 := IntegerMachine.CommandLine.carryOut arguments
