/-!
# Byte strings

A stream of octets is a list; a number is read from it least significant byte first (`little`) or
most significant byte first (`big`).  `hex` writes two lower-case digits per byte.

    little (b :: r) = b + 256 · little r          big s = little s.reverse
-/

namespace Overseer

/-- A finite sequence of octets. -/
abbrev Bytes := List UInt8

namespace Bytes

/-- The number whose least significant byte comes first. -/
def little : Bytes → Nat
  | [] => 0
  | b :: r => b.toNat + 256 * little r

/-- The number whose most significant byte comes first. -/
def big (s : Bytes) : Nat := little s.reverse

/-- The `n` low bytes of `k`, least significant first. -/
def ofNat : (n : Nat) → (k : Nat) → Bytes
  | 0, _ => []
  | n + 1, k => k.toUInt8 :: ofNat n (k / 256)

def hexDigit (n : Nat) : Char :=
  if n < 10 then Char.ofNat (48 + n) else Char.ofNat (87 + n)

/-- Two lower-case hexadecimal digits for each byte. -/
def hex (s : Bytes) : String :=
  String.ofList (s.flatMap fun b => [hexDigit (b.toNat / 16), hexDigit (b.toNat % 16)])

/-! ## Lemmas -/

@[simp] theorem length_ofNat (n k : Nat) : (ofNat n k).length = n := by
  induction n generalizing k with
  | zero => rfl
  | succ n ih => simp [ofNat, ih]

/-- Reading back the low bytes of a number gives the number modulo their range. -/
theorem little_ofNat (n k : Nat) : little (ofNat n k) = k % Nat.pow 256 n := by
  induction n generalizing k with
  | zero => exact (Nat.mod_one k).symm
  | succ n ih =>
    have h : (k.toUInt8).toNat = k % 256 := by simp
    rw [ofNat, little, ih, h, show Nat.pow 256 (n + 1) = 256 * Nat.pow 256 n from Nat.mul_comm _ _,
      Nat.mod_mul]

end Bytes

end Overseer
