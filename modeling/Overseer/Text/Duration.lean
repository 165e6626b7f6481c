import Overseer.Text.Number

/-!
# Durations as text

A number of nanoseconds, in the largest of the units `s`, `ms`, `µs` and `ns` that it holds once, with
the fraction cut after its last digit that is not zero.  The empty duration is `0ns`.
-/

namespace Overseer.Text

/-- So many digits after the point, without the zeros at the end. -/
def fractionText (places n : Nat) : String :=
  let ds := ((padded places n).toList.reverse.dropWhile (· == '0')).reverse
  if ds.isEmpty then "" else "." ++ String.ofList ds

/-- A number of nanoseconds in a unit that has `size` of them, with so many places in its fraction. -/
def inUnit (ns size places : Nat) (unit : String) : String :=
  toString (ns / size) ++ fractionText places (ns % size) ++ unit

def durationText (ns : Nat) : String :=
  if 1000000000 ≤ ns then inUnit ns 1000000000 9 "s"
  else if 1000000 ≤ ns then inUnit ns 1000000 6 "ms"
  else if 1000 ≤ ns then inUnit ns 1000 3 "µs"
  else inUnit ns 1 0 "ns"

end Overseer.Text
