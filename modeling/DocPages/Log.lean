/-
What a run reports.

A run never stops at a problem that it can pass over.  It reports the problem as a
diagnostic, and it also tells what it is doing.  Both are events in one log, and only
diagnostics are counted at the end.
-/
namespace DocPages

inductive Severity where
  | warning
  | error
deriving Repr, DecidableEq

/-- Levels of a log line, the gravest first. -/
inductive Level where
  | error
  | warn
  | info
  | debug
deriving Repr, DecidableEq

def Level.label : Level → String
  | .error => "ERROR"
  | .warn => "WARN"
  | .info => "INFO"
  | .debug => "DEBUG"

/-- How much has to be asked for before lines of this level are shown. -/
def Level.verbosity : Level → Nat
  | .error | .warn => 0
  | .info => 1
  | .debug => 2

inductive Event where
  | diagnostic (severity : Severity) (message : String)
  | trace (level : Level) (message : String)
deriving Repr, DecidableEq

namespace Event

def warning (message : String) : Event := .diagnostic .warning message

def error (message : String) : Event := .diagnostic .error message

def info (message : String) : Event := .trace .info message

def debug (message : String) : Event := .trace .debug message

def level : Event → Level
  | .diagnostic .warning _ => .warn
  | .diagnostic .error _ => .error
  | .trace level _ => level

def message : Event → String
  | .diagnostic _ message => message
  | .trace _ message => message

/-- Is the event shown when this much is asked for? -/
def shownAt (verbosity : Nat) (e : Event) : Bool := decide (e.level.verbosity ≤ verbosity)

def isDiagnostic (severity : Severity) : Event → Bool
  | .diagnostic s _ => s == severity
  | .trace .. => false

end Event

/-- Events in the order in which they happened. -/
abbrev Log := List Event

/-- The number of diagnostics of a severity. -/
def Log.count (log : Log) (severity : Severity) : Nat :=
  log.countP (Event.isDiagnostic severity)

end DocPages
