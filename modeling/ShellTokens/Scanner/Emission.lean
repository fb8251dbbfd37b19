import ShellTokens.Scanner.State
import ShellTokens.Text.Quoted
import ShellTokens.Token.Basic

/-! # What a scanner hands out -/

namespace ShellTokens

/-- A token, or a report from the middle of one. -/
inductive Emission where
  | token (t : Token)
  /-- A byte that is no text, found in the state. It also stays in the token under way. -/
  | malformed (byte : UInt8) (state : State)
  deriving DecidableEq, Repr

namespace Emission

def byteText (byte : UInt8) : String :=
  String.ofList (List.leftpad 2 '0' (Text.hex byte.toNat))

/-- What the parser gets. A byte that is no text is reported as an error. -/
def toToken : Emission → Token
  | .token t => t
  | .malformed byte _ => .error ("invalid UTF-8 byte 0x" ++ byteText byte)

end Emission

end ShellTokens
