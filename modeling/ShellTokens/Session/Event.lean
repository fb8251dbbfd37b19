import ShellTokens.Scanner.Emission
import ShellTokens.Session.Failure

/-! # What a session tells its log -/

namespace ShellTokens

inductive Event where
  | malformed (byte : UInt8) (state : State)
  | requesting (label : String) (line : LineCount)
  | retrying (label : String) (retries : Nat)
  | cancelled (label : String)
  | endOfInput (label : String) (lines : LineCount)
  | inputFailed (label : String) (line : LineCount) (reason : String)
  | interrupted (label : String)
  | shutDownFromOutside (label : String)
  | shuttingDown (label : String)
  | discarded (label : String)
  | aborting (failure : Failure)
  deriving DecidableEq, Repr

/-- A byte that is no text is noted down when it is found. -/
def Emission.events : Emission → List Event
  | .token _ => []
  | .malformed byte state => [.malformed byte state]

namespace Event

/-- The supplier is asked for a line. -/
def isRequest : Event → Bool
  | requesting .. => true
  | _ => false

inductive Level where
  | debug
  | warn
  | error
  deriving DecidableEq, Repr

def Level.name : Level → String
  | debug => "DEBUG"
  | warn => "WARN"
  | error => "ERROR"

def level : Event → Level
  | malformed .. | retrying .. => .warn
  | inputFailed .. | aborting .. => .error
  | _ => .debug

/-- The fixed part of a note. -/
def message : Event → String
  | malformed .. => "invalid UTF-8"
  | requesting .. => "requesting input"
  | retrying .. => "input unavailable, retrying"
  | cancelled .. => "input cancelled"
  | endOfInput .. => "end of input"
  | inputFailed .. => "input failed"
  | interrupted .. => "interrupted"
  | shutDownFromOutside .. => "shut down by handle"
  | shuttingDown .. => "shutting down"
  | discarded .. => "discarded pending input"
  | aborting .. => "aborting"

end Event

end ShellTokens
