import ShellTokens.Text.Quoted
import ShellTokens.Token.Basic

/-! # How a token is shown to people -/

namespace ShellTokens.Token

/-- The kind, and in brackets the character that it stands for or else the quoted text. A newline
is shown by its kind alone. -/
def display (t : Token) : String :=
  match t.kind.char? with
  | some '\n' => t.kind.name
  | some c => t.kind.name ++ "(" ++ c.toString ++ ")"
  | none => t.kind.name ++ "(" ++ Text.quoted t.text ++ ")"

end ShellTokens.Token
