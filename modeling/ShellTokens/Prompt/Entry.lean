import ShellTokens.Supplier

/-!
# Typing at the prompt

Keys become answers. What is typed is kept until a key submits it, and meanwhile it can be edited at
its end.
-/

namespace ShellTokens.Prompt

structure Modifiers where
  ctrl : Bool := false
  shift : Bool := false
  alt : Bool := false
  deriving DecidableEq, Repr

inductive Key where
  | esc
  | enter
  | backspace
  | char (c : Char) (held : Modifiers)
  /-- Anything that the prompt has no use for. -/
  | other
  /-- The keyboard cannot be read. -/
  | failure (reason : String)
  deriving DecidableEq, Repr

/-- What a key does: what it writes to the screen, what it answers the reader that waits for a
line, and what is typed after it, with the last character first. -/
structure Press where
  echo : String := ""
  answer : Option Answer := none
  typed : List Char
  deriving DecidableEq, Repr

def textOf (typed : List Char) : String := String.ofList typed.reverse

/-- Goes to the start of the next line of the screen. -/
def lineEnd : String := "\r\n"

/-- Moves the screen's cursor one column to the left. -/
def stepLeft : String := "\x1b[1D"

/-- The keys for cancelling and for the end of input are held with nothing but the control key. -/
def onlyCtrl : Modifiers := { ctrl := true }

def press (typed : List Char) : Key → Press
  | .esc => { answer := some (.eof (textOf typed)), typed := [] }
  | .enter => { echo := lineEnd, answer := some (.line (textOf ('\n' :: typed))), typed := [] }
  | .backspace =>
    match typed with
    | [] => { typed := [] }
    | _ :: rest => { echo := stepLeft ++ " " ++ stepLeft, typed := rest }
  | .char c held =>
    if c = 'c' ∧ held = onlyCtrl then
      { echo := "^C" ++ lineEnd, answer := some .cancelled, typed := [] }
    else if c = 'd' ∧ held = onlyCtrl then
      { answer := if typed.isEmpty then some (.eof "") else none, typed }
    else { echo := c.toString, typed := c :: typed }
  | .other => { typed }
  | .failure reason => { answer := some (.fatal (textOf typed) reason), typed := [] }

/-- What the keys up to an answer come to, and how many they are. -/
structure Entry where
  echo : String
  answer : Answer
  events : Nat
  deriving DecidableEq, Repr

/-- One entry after the other. At the end of the keys is the end of input, and what was typed and
not submitted is lost. -/
def entriesFrom (typed : List Char) (echo : String) (events : Nat) : List Key → List Entry
  | [] => [⟨echo, .eof "", events⟩]
  | key :: keys =>
    let p := press typed key
    match p.answer with
    | some answer => ⟨echo ++ p.echo, answer, events + 1⟩ :: entriesFrom p.typed "" 0 keys
    | none => entriesFrom p.typed (echo ++ p.echo) (events + 1) keys

def entries (keys : List Key) : List Entry := entriesFrom [] "" 0 keys

end ShellTokens.Prompt
