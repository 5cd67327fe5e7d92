/-
This file defines the messages that the program gives while it works. A
`Message` is a value like any other result; whoever shows it chooses by its
`Severity` how much to show.
-/

namespace BytecodeFlow

inductive Severity where
  | error
  | warn
  | info
  | debug
deriving DecidableEq, Repr

namespace Severity

def text : Severity → String
  | .error => "ERROR"
  | .warn => "WARN"
  | .info => "INFO"
  | .debug => "DEBUG"

/-- Severities from the gravest down. -/
def rank : Severity → Nat
  | .error => 0
  | .warn => 1
  | .info => 2
  | .debug => 3

end Severity

structure Message where
  severity : Severity
  text : String
deriving DecidableEq, Repr

namespace Message

def warn (text : String) : Message := ⟨.warn, text⟩

def info (text : String) : Message := ⟨.info, text⟩

def debug (text : String) : Message := ⟨.debug, text⟩

/-- A message as one line. -/
def line (message : Message) : String := message.severity.text ++ " " ++ message.text

/-- Whether a message is at least as grave as the given severity. Without a severity nothing is
shown. -/
def isShown (threshold : Option Severity) (message : Message) : Bool :=
  match threshold with
  | none => false
  | some severity => message.severity.rank ≤ severity.rank

end Message

/-- The lines of the messages that are shown. -/
def shownLines (threshold : Option Severity) (messages : List Message) : List String :=
  (messages.filter (Message.isShown threshold)).map Message.line

end BytecodeFlow
