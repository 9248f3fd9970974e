import Workplan.Number.Binary64
import Workplan.Number

/-! Lengths of time in whole nanoseconds. The seconds of a duration are a number of 64 bits. -/
namespace Workplan
set_option autoImplicit false

/-- A length of time. -/
structure Duration where
  nanoseconds : Nat
  inRange : nanoseconds < 2 ^ 64 * 10 ^ 9
deriving DecidableEq, Repr

namespace Duration

/-- A number of seconds that is not negative, rounded to the nearest nanosecond; `none` beyond the
range of durations. -/
def ofSeconds? (seconds : Binary64) : Option Duration :=
  let (num, den) := seconds.fraction
  let n := roundQuotient (num * 10 ^ 9) den
  if h : n < 2 ^ 64 * 10 ^ 9 then some ⟨n, h⟩ else none

def milliseconds (d : Duration) : Nat := (d.nanoseconds + (10 ^ 6 - 1)) / 10 ^ 6

/-- True of durations after which the clock has no time left to show. -/
def isBeyondClock (d : Duration) : Bool := 2 ^ 63 * 10 ^ 9 ≤ d.nanoseconds

def twoPlaces (hundredths : Nat) : String :=
  let part := String.ofList (Nat.toDigits 10 (hundredths % 100))
  s!"{hundredths / 100}." ++ (if hundredths % 100 < 10 then "0" else "") ++ part

/-- Milliseconds in the largest unit of which there is one at least, with two digits behind the
point. -/
def textOfMilliseconds (ms : Nat) : String :=
  if ms = 0 then "0.00ns"
  else if ms < 1000 then twoPlaces (100 * ms) ++ "ms"
  else twoPlaces ((ms + 5) / 10) ++ "s"

end Duration

end Workplan
