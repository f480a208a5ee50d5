import DnsResolver.Log.Escaped

/-!
# Log lines

Every log line has a level and names the part of the program that it comes from.  In a line for
the system log the level stands in front as a priority number between angle brackets.  The message
is escaped, so that it cannot steer the terminal of a reader; its line breaks stay as they are.
-/

namespace DnsResolver

/-- How important a log line is. -/
inductive LogLevel where
  | error
  | warn
  | info
  | debug
  | trace
  deriving DecidableEq, Repr

namespace LogLevel

/-- The place in the order of levels, the most important one first. -/
def rank : LogLevel → Nat
  | error => 0
  | warn => 1
  | info => 2
  | debug => 3
  | trace => 4

/-- Whether lines of the level are written when `most` is the least important level wanted. -/
def shows (most level : LogLevel) : Bool :=
  level.rank ≤ most.rank

/-- The priority of the level in the system log. -/
def priority : LogLevel → Nat
  | error => 3
  | warn => 4
  | info => 6
  | debug => 7
  | trace => 7

/-- The name of the level. -/
def display : LogLevel → String
  | error => "error"
  | warn => "warn"
  | info => "info"
  | debug => "debug"
  | trace => "trace"

/-- All levels, the most important one first. -/
def all : List LogLevel := [error, warn, info, debug, trace]

/-- The level with the given name. -/
def ofString? (s : String) : Option LogLevel :=
  all.find? fun level => level.display = s

end LogLevel

/-- Where log lines go. -/
inductive LogTarget where
  /-- A reader at a terminal. -/
  | console
  /-- The system log, whose lines begin with their priority. -/
  | systemd
  deriving DecidableEq, Repr

namespace LogTarget

/-- The name of the target. -/
def display : LogTarget → String
  | console => "console"
  | systemd => "systemd"

/-- The target with the given name. -/
def ofString? (s : String) : Option LogTarget :=
  [console, systemd].find? fun target => target.display = s

end LogTarget

/-- A text with its level and origin. -/
structure LogEntry where
  level : LogLevel
  origin : String
  message : String
  deriving DecidableEq, Repr

namespace LogEntry

/-- The line for the system log, without its end. -/
def systemLine (entry : LogEntry) : String :=
  s!"<{entry.level.priority}>{entry.origin}: {Escaped.ofString entry.message}"

/-- The line for a terminal, without its end. -/
def consoleLine (entry : LogEntry) : String :=
  s!"{entry.level.display} {entry.origin}: {Escaped.ofString entry.message}"

/-- The lines of those entries that are wanted. -/
def lines (target : LogTarget) (most : LogLevel) (entries : List LogEntry) : List String :=
  (entries.filter fun entry => most.shows entry.level).map fun entry =>
    match target with
    | .console => entry.consoleLine
    | .systemd => entry.systemLine

end LogEntry
end DnsResolver
