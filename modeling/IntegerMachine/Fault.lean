import IntegerMachine.Word

/-!
# Faults

The conditions under which a running program cannot go on. A fault is raised by the decoder, by
memory or by a jump; it says nothing about the program it struck.
-/
namespace IntegerMachine

inductive Fault where
  | unknownOpcode (word : Word)
  | invalidMode (word digit : Word)
  | negativeAddress (word : Word)
  | addressOutOfRange (word : Word)
  | immediateStore
  | jumpOutOfBounds (word : Word)
  | ranOffEnd
  /-- The limit allows for the cell, but no memory can have so many. -/
  | beyondCapacity
  deriving DecidableEq

def Fault.message : Fault → String
  | .unknownOpcode word => "unknown opcode in instruction word " ++ word.text
  | .invalidMode word digit =>
    "invalid addressing mode digit " ++ digit.text ++ " in instruction word " ++ word.text
  | .negativeAddress word => "negative effective address " ++ word.text
  | .addressOutOfRange word => "address " ++ word.text ++ " is beyond the memory limit"
  | .immediateStore => "immediate mode argument used as a store target"
  | .jumpOutOfBounds word => "jump target " ++ word.text ++ " is outside of memory"
  | .ranOffEnd => "instruction pointer ran past the end of memory without halting"
  | .beyondCapacity => "memory cannot hold so many cells"

end IntegerMachine
