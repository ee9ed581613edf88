/-!
# Durations

Lengths of time in whole nanoseconds, and their text: the largest of the units s, ms, µs and ns in
which the duration is at least one, with as many decimals as it needs.
-/
namespace IntegerMachine

structure Duration where
  nanoseconds : Nat
  deriving DecidableEq

namespace Duration

def ofMicroseconds (n : Nat) : Duration := ⟨n * 1000⟩

def ofMilliseconds (n : Nat) : Duration := ⟨n * 1000000⟩

def microseconds (d : Duration) : Nat := d.nanoseconds / 1000

def milliseconds (d : Duration) : Nat := d.nanoseconds / 1000000

/-- The clock holds the seconds of a point in time in a signed 64-bit number. -/
@[noinline] def clockRange : Nat := (1 <<< 63) * 1000000000

/-- Whether a wait of this length has a deadline. The clock is taken to stand at zero when the wait begins. -/
def isTimable (d : Duration) : Bool := d.nanoseconds < clockRange

/-- The decimals of `part / 10 ^ places`, without trailing zeros and led by a point if there are
    any. -/
def decimals (places part : Nat) : String :=
  let digits := part.repr.toList
  let padded := List.replicate (places - digits.length) '0' ++ digits
  let kept := (padded.reverse.dropWhile (· == '0')).reverse
  if kept.isEmpty then "" else "." ++ String.ofList kept

/-- A number of nanoseconds in a unit of `10 ^ places` nanoseconds. -/
def textIn (nanoseconds places : Nat) (unit : String) : String :=
  (nanoseconds / Nat.pow 10 places).repr ++ decimals places (nanoseconds % Nat.pow 10 places) ++ unit

def text (d : Duration) : String :=
  let n := d.nanoseconds
  if 1000000000 ≤ n then textIn n 9 "s"
  else if 1000000 ≤ n then textIn n 6 "ms"
  else if 1000 ≤ n then textIn n 3 "µs"
  else textIn n 0 "ns"

end Duration

end IntegerMachine
