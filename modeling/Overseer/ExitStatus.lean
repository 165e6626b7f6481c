/-!
# How a child ended

A raw wait status is a word whose seven low bits are zero after a normal exit, the signal number
after a death by signal, and all ones for a stopped child.  The exit code is the next byte up.

    ofWait s = exited ((s / 256) mod 256)        when s mod 128 = 0
    ofWait s = signaled (s mod 128)              when s mod 128 is neither 0 nor 127
-/

namespace Overseer

inductive ExitStatus
  | exited (code : Nat)
  | signaled (signal : Nat)
  | unknown
  deriving DecidableEq, Repr

namespace ExitStatus

/-- The seven low bits of a wait status. -/
def lowBits (raw : Int) : Nat := (raw % 128).toNat

/-- The second byte of a wait status. -/
def codeBits (raw : Int) : Nat := (raw / 256 % 256).toNat

def hasExited (raw : Int) : Bool := lowBits raw == 0

def wasSignaled (raw : Int) : Bool := lowBits raw != 0 && lowBits raw != 127

def ofWait (raw : Int) : ExitStatus :=
  if hasExited raw then exited (codeBits raw)
  else if wasSignaled raw then signaled (lowBits raw)
  else unknown

/-- The exit code of a normal exit. -/
def code : ExitStatus → Option Nat
  | exited c => some c
  | _ => none

/-- The signal that killed the child. -/
def signal : ExitStatus → Option Nat
  | signaled s => some s
  | _ => none

/-- A normal exit with code zero. -/
def success : ExitStatus → Bool
  | exited 0 => true
  | _ => false

def text : ExitStatus → String
  | exited c => "exit status " ++ toString c
  | signaled s => "killed by signal " ++ toString s
  | unknown => "unknown status"

end ExitStatus

namespace Signal

/-- Kills at once and cannot be ignored. -/
def kill : Int := 9

/-- Asks for termination. -/
def term : Int := 15

/-- Signal numbers run from 1 to 64. -/
def isValid (sig : Int) : Bool := decide (1 ≤ sig ∧ sig ≤ 64)

end Signal

/-! ## Lemmas -/

theorem ExitStatus.lowBits_lt (raw : Int) : ExitStatus.lowBits raw < 128 := by
  unfold ExitStatus.lowBits
  omega

/-- The signal of a decoded status is a number that a signal may have, up to 126. -/
theorem ExitStatus.signal_ofWait {raw : Int} {s : Nat} (h : (ofWait raw).signal = some s) :
    1 ≤ s ∧ s ≤ 126 := by
  have hl := lowBits_lt raw
  unfold ofWait at h
  split at h
  · simp [signal] at h
  · split at h
    · next hs =>
      simp only [signal, Option.some.injEq] at h
      simp only [wasSignaled, Bool.and_eq_true, bne_iff_ne] at hs
      omega
    · simp [signal] at h

end Overseer
