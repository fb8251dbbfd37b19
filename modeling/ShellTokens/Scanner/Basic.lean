import ShellTokens.Cursor
import ShellTokens.FirstWords.Basic
import ShellTokens.Scanner.Emission
import ShellTokens.Token.Normal

/-!
# The scanner

Input is appended in chunks, cut anywhere. The scanner looks at one rune after the other, and when
it runs out of input it goes on where it was once there is more.
-/

namespace ShellTokens

/-- `saved` is the state that an escape goes back to, `after` is the kind of the last token, and
`depth` counts the open parentheses and braces. -/
structure Scanner where
  cursor : Cursor := {}
  state : State := .blank
  saved : Option State := none
  after : Option Kind := none
  depth : Nat := 0
  words : FirstWords := .untracked
  deriving DecidableEq, Repr

namespace Scanner

/-- A scanner at the start of its input that tracks first words or not. -/
def fresh (interactive : Bool) : Scanner :=
  { words := if interactive then .fresh else .untracked }

def append (input : List UInt8) (s : Scanner) : Scanner :=
  { s with cursor := s.cursor.append input }

/-- Forgets all that has become no token. The first words stay as they are. -/
def discard (s : Scanner) : Scanner :=
  { s with cursor := {}, state := .blank, saved := none, after := none, depth := 0 }

/-- The last token carries the command on past the end of the line. -/
def continuesLine (s : Scanner) : Bool := s.after.any Kind.continuesLine

/-- Nothing is under way: no token, no group, no command that needs another line. -/
def isSettled (s : Scanner) : Bool :=
  s.state = .blank && s.saved = none && s.cursor.isDrained && s.depth = 0 && !s.continuesLine

/-! ## One rune -/

inductive Step where
  /-- The input ran out. -/
  | halt (s : Scanner)
  | silent (s : Scanner)
  | emit (e : Emission) (s : Scanner)
  deriving DecidableEq, Repr

def Step.on? : Step → Option Scanner
  | halt _ => none
  | silent s => some s
  | emit _ s => some s

/-- Back from an escape. Any other state stays. -/
def resumed (s : Scanner) : Scanner :=
  if s.state = .afterBackslash then { s with state := s.saved.getD .symbol, saved := none } else s

/-- What a finished token changes besides the position. -/
def record (t : Token) (s : Scanner) : Scanner :=
  { s with
    after := some t.kind
    depth := if t.kind.opensGroup then s.depth + 1
      else if t.kind.closesGroup then s.depth - 1 else s.depth
    words := s.words.observe t }

/-- The token under way ends here. A newline in a command that needs another line does not count. -/
def finish (kind : Kind) (s : Scanner) : Step :=
  let rest := { s with cursor := s.cursor.mark, state := .blank }
  if kind = .newline ∧ s.continuesLine then .silent rest
  else
    let t := Token.normal kind s.cursor.text
    .emit (.token t) (rest.record t)

/-- Between tokens, a token begins with whatever is read next. -/
def marked (s : Scanner) : Scanner :=
  if s.state = .blank then { s with cursor := s.cursor.mark } else s

/-- Does what the state says with the rune at the reading position. -/
def look (s : Scanner) : Step :=
  let ahead := s.cursor.next.2
  let read := { s with cursor := ahead }
  match s.state.respond (s.cursor.firstByte? = some '!'.toUInt8) s.cursor.peek with
  | .halt => .halt s
  | .keep => .silent read
  | .enter next => .silent { read with state := next }
  | .become next => .silent { read with cursor := ahead.back, state := next }
  | .escape back => .silent { read with state := .afterBackslash, saved := some back }
  | .resume => .silent read.resumed
  | .take kind => read.finish kind
  | .leave kind => finish kind { read with cursor := ahead.back }
  | .reject byte => .emit (.malformed byte s.state) read.resumed

def step (s : Scanner) : Step := s.marked.look

end Scanner

end ShellTokens
