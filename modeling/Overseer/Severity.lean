import Overseer.Text.Blank

/-!
# Severities of log messages

Five levels in increasing order.  `read` takes a name in any case with blanks around it, two long
forms, and `info` for everything else.
-/

namespace Overseer

inductive Severity
  | trace
  | debug
  | info
  | warn
  | error
  deriving DecidableEq, Repr

namespace Severity

def rank : Severity → Nat
  | trace => 0
  | debug => 1
  | info => 2
  | warn => 3
  | error => 4

def name : Severity → String
  | trace => "trace"
  | debug => "debug"
  | info => "info"
  | warn => "warn"
  | error => "error"

/-- The severity with exactly this name. -/
def ofName? (s : String) : Option Severity :=
  [trace, debug, info, warn, error].find? fun l => l.name == s

/-- Any text is a severity; the unknown ones are `info`. -/
def read (s : String) : Severity :=
  match Text.lower (Text.trim s) with
  | "trace" => trace
  | "debug" => debug
  | "warn" => warn
  | "warning" => warn
  | "error" => error
  | "err" => error
  | _ => info

/-! ## Lemmas -/

theorem ofName?_name (l : Severity) : ofName? l.name = some l := by
  cases l <;> rfl

end Severity

end Overseer
