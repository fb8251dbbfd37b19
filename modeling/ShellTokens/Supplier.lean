/-!
# Where more input comes from

A supplier is known by what it will do. It answers one call after the other, and when all is said
it is at the end of its input for good.
-/

namespace ShellTokens

/-- What can be sent to a session from outside, also while it waits for a line. -/
inductive Signal where
  | interrupt
  | shutdown
  deriving DecidableEq, Repr

inductive Answer where
  | line (text : String)
  /-- Input ends here, with what came after the last line. -/
  | eof (rest : String)
  | retry
  | cancelled
  /-- Input breaks off, with what came after the last line. -/
  | fatal (rest reason : String)
  deriving DecidableEq, Repr

namespace Answer

def text : Answer → String
  | line text => text
  | eof rest => rest
  | retry => ""
  | cancelled => ""
  | fatal rest _ => rest

def complaint? : Answer → Option String
  | line _ => none
  | eof _ => some "end of input"
  | retry => some "input temporarily unavailable"
  | cancelled => some "input cancelled"
  | fatal _ reason => some reason

end Answer

/-- One call: the signals that are sent during it, and then the answer. Without an answer the call
goes on for ever. -/
structure Call where
  signals : List Signal := []
  answer : Option Answer
  deriving DecidableEq, Repr

/-- The calls that will be answered, in their order. -/
structure Supplier where
  calls : List Call
  deriving DecidableEq, Repr

namespace Supplier

def ofAnswers (answers : List Answer) : Supplier := ⟨answers.map fun a => ⟨[], some a⟩⟩

/-- A supplier of lines. Each text is handed out as it is. -/
def ofLines (lines : List String) : Supplier := ofAnswers (lines.map .line)

def ask : Supplier → Call × Supplier
  | ⟨[]⟩ => (⟨[], some (.eof "")⟩, ⟨[]⟩)
  | ⟨call :: later⟩ => (call, ⟨later⟩)

end Supplier

end ShellTokens
