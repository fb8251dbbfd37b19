import ShellTokens.Token.Kind

/-! # Tokens -/

namespace ShellTokens

structure Token where
  kind : Kind
  text : String := ""
  deriving DecidableEq, Repr

namespace Token

/-- The user asked to stop. -/
def interrupt : Token := ⟨.interrupt, ""⟩

def endOfInput : Token := ⟨.endOfInput, ""⟩

def error (message : String) : Token := ⟨.error, message⟩

/-- Whoever reads this token drops the command under way. -/
def isFatal (t : Token) : Bool := t.kind = .interrupt

end Token

end ShellTokens
