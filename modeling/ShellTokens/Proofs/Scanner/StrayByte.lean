import ShellTokens.Proofs.Scanner.Parallel

/-!
# A byte that is no text

A byte that belongs to no sequence disturbs nothing but the token that it is in. It is reported, and
in the text of that token it is one replacement more.
-/

namespace ShellTokens

open Rune (Row Shown announced shownAs)
open Text (encoded lossyChars replacement)

variable {home : State} {p : List UInt8} {rs : List Rune} {stray : UInt8}

/-! ## The text of the token -/

namespace Scanner

/-- The text of the token under way so far, without the quotes that it begins with. -/
def begun (s : Scanner) : String :=
  String.ofList ((lossyChars s.cursor.tokenBytes).drop s.state.opening.length)

end Scanner

namespace Scanner

variable {s : Scanner} {es : List Emission}

variable {past : Scanner} {state : State} {ahead later : List UInt8} {byte : UInt8}

/-- The reports of a stray byte. A comment is thrown away with all that is in it. -/
def reports (stray : UInt8) (state : State) : List Emission :=
  if state = .comment then [] else [.malformed stray state]

end Scanner

end ShellTokens
