/-! # Why a session gives no more tokens -/

namespace ShellTokens

/-- A count of lines is a machine word. Behind the greatest one it starts over at zero. -/
abbrev LineCount := UInt64

instance : Coe LineCount Nat := ⟨UInt64.toNat⟩

instance : Coe Nat LineCount := ⟨UInt64.ofNat⟩

inductive Failure where
  | shutDown
  /-- The parser gave up at a line of the input with the label. -/
  | aborted (label : String) (line : LineCount) (message : String)
  deriving DecidableEq, Repr

namespace Failure

def message : Failure → String
  | shutDown => "lexer has been shut down"
  | aborted label line message => label ++ ":" ++ toString line ++ ": " ++ message

end Failure

end ShellTokens
