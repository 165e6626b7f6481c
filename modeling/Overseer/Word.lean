/-!
# Machine words

How many values words of 32 and 64 bits have, and where a sign splits them.

    without a sign:  0 ≤ n < size64          with a sign:  -half64 ≤ n < half64
-/

namespace Overseer.Word

/-- Two to the 64. -/
def size64 : Nat := 18446744073709551616

/-- Two to the 63. -/
def half64 : Nat := 9223372036854775808

/-- Two to the 31. -/
def half32 : Nat := 2147483648

/-- Whether a number fits 64 bits without a sign. -/
def fits64 (n : Nat) : Bool := n < size64

/-- Whether a number fits 32 bits with a sign. -/
def fitsInt32 (i : Int) : Bool := -(half32 : Int) ≤ i && i < half32

end Overseer.Word
