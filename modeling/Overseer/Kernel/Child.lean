import Overseer.Bytes
import Overseer.ExitStatus

/-!
# Children

A child runs, then is a zombie that holds its wait status, then is gone.  Its standard input is a
pipe of limited capacity, its two outputs are pipes without a limit; a pipe that was never made is
absent.  A child may be passive, drain its input on its own, or copy its input to its output.

    die raw c:   running → zombie raw, the input end closed, each output closed unless it is kept
-/

namespace Overseer.Kernel

/-- A captured stream of a child. -/
inductive Stream
  | out
  | err
  deriving DecidableEq, Repr

namespace Stream

def name : Stream → String
  | out => "stdout"
  | err => "stderr"

end Stream

inductive Life
  | running
  | zombie (raw : Int)
  | reaped
  deriving DecidableEq, Repr

/-- What a child does with its input of its own accord. -/
inductive Mode
  | passive
  | drain
  | echo
  deriving DecidableEq, Repr

/-- How a child behaves; the delay is in nanoseconds. -/
structure Habits where
  ignored : List Int
  delay : Nat
  mode : Mode
  eofExit : Option Int
  capacity : Nat
  deriving DecidableEq, Repr

def Habits.standard : Habits := ⟨[], 0, .passive, none, 65536⟩

/-- Changes to some of the habits. -/
structure HabitChange where
  ignored : Option (List Int)
  delay : Option Nat
  mode : Option Mode
  eofExit : Option Int
  capacity : Option Nat
  deriving DecidableEq, Repr

def Habits.change (h : Habits) (d : HabitChange) : Habits :=
  { ignored := d.ignored.getD h.ignored
    delay := d.delay.getD h.delay
    mode := d.mode.getD h.mode
    eofExit := d.eofExit.or h.eofExit
    capacity := d.capacity.getD h.capacity }

/-- The pipe to a child: its bytes and which of its two ends are open. -/
structure Input where
  buffer : Bytes
  childOpen : Bool
  parentOpen : Bool
  deriving DecidableEq, Repr

/-- A pipe from a child: the unread bytes, and whether more may come. -/
structure Output where
  buffer : Bytes
  writerOpen : Bool
  deriving DecidableEq, Repr

structure Child where
  pid : Int
  life : Life
  leader : Bool
  habits : Habits
  input : Option Input
  out : Option Output
  err : Option Output
  consumed : Bytes
  deriving DecidableEq, Repr

namespace Child

def isRunning (c : Child) : Bool := c.life == .running

def stream (c : Child) : Stream → Option Output
  | .out => c.out
  | .err => c.err

def mapStream (c : Child) (s : Stream) (f : Output → Output) : Child :=
  match s with
  | .out => { c with out := c.out.map f }
  | .err => { c with err := c.err.map f }

/-- Bytes arrive in a stream whose writer is still open. -/
def emit (c : Child) (s : Stream) (data : Bytes) : Child :=
  c.mapStream s fun o => if o.writerOpen then { o with buffer := o.buffer ++ data } else o

def closeStream (c : Child) (s : Stream) : Child :=
  c.mapStream s fun o => { o with writerOpen := false }

/-- The child closes its end of the input; what it has not read is lost. -/
def closeInput (c : Child) : Child :=
  { c with input := c.input.map fun i => { i with childOpen := false, buffer := [] } }

/-- The child reads up to `n` bytes of its input. -/
def consume (c : Child) (n : Nat) : Child :=
  match c.input with
  | some i =>
    if i.childOpen then
      { c with input := some { i with buffer := i.buffer.drop n }
               consumed := c.consumed ++ i.buffer.take n }
    else c
  | none => c

/-- A running child ends, keeping only the named streams open. -/
def die (c : Child) (raw : Int) (kept : List Stream) : Child :=
  if c.isRunning then
    let c := { c.closeInput with life := .zombie raw }
    let c := if kept.contains .out then c else c.closeStream .out
    if kept.contains .err then c else c.closeStream .err
  else c

/-- A child that handles its own input reads all of it, and ends at the end of the input. -/
def tend (c : Child) : Child :=
  match c.habits.mode, c.input with
  | .passive, _ => c
  | _, none => c
  | mode, some i =>
    if c.isRunning && i.childOpen then
      let fed := c.consume i.buffer.length
      let fed := if mode == .echo then fed.emit .out i.buffer else fed
      match i.parentOpen, c.habits.eofExit with
      | false, some raw => fed.die raw []
      | _, _ => fed
    else c

end Child

end Overseer.Kernel
