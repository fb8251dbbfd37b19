import ShellTokens.Text.Slice
import ShellTokens.Token.Basic
import ShellTokens.Token.Operator

/-!
# From what was scanned to what a parser expects

Quotes go, an operator becomes the name of its operation, and a word with a brace in it is no plain
word.
-/

namespace ShellTokens.Token

/-- A word with such a character in it is no plain word. -/
def isBrace (c : Char) : Bool := c = '\x7b' || c = '\x7d'

/-- A brace on its own is punctuation. Any other word with a brace is a brace expansion. -/
def ofWord (text : String) : Token :=
  match text.toList with
  | ['\x7b'] => ⟨.openBrace, text⟩
  | ['\x7d'] => ⟨.closeBrace, text⟩
  | cs => if cs.any isBrace then ⟨.braceExpansion, text⟩ else ⟨.symbol, text⟩

/-- The token that a parser gets for scanned text of the kind. A newline may have come with a
comment in front of it. -/
def normal (kind : Kind) (text : String) : Token :=
  match kind with
  | .symbol => ofWord text
  | .newline => ⟨.newline, "\n"⟩
  | .singleQuoted | .doubleQuoted => ⟨kind, Text.strip 1 text⟩
  | .bangString => ⟨.bangString, Text.strip 2 text⟩
  | .background | .and | .or | .pipe | .redirect | .substitute =>
    ⟨kind, ((Operator.ofSpelling? text).map (·.name)).getD text⟩
  | _ => ⟨kind, text⟩

end ShellTokens.Token
