/-!
# The kinds of tokens

The kind alone decides how a parser reads a token's text.
-/

namespace ShellTokens

inductive Kind where
  -- Single characters.
  | newline
  | percent
  | openParen
  | closeParen
  | semicolon
  | atSign
  | backtick
  | openBrace
  | closeBrace
  | colon
  -- Operators. The text is the name of the operation.
  | background
  | and
  | or
  | pipe
  | redirect
  | substitute
  | cons
  -- Quoted text, without the quotes.
  | singleQuoted
  | doubleQuoted
  | bangString
  -- Words.
  | symbol
  | braceExpansion
  -- What is no part of a command. The text of an error is a message.
  | error
  | endOfInput
  | interrupt
  deriving DecidableEq, Repr

namespace Kind

def all : List Kind :=
  [newline, percent, openParen, closeParen, semicolon, atSign, backtick, openBrace, closeBrace,
    colon, background, and, or, pipe, redirect, substitute, cons, singleQuoted, doubleQuoted,
    bangString, symbol, braceExpansion, error, endOfInput, interrupt]

def name : Kind → String
  | newline => "Newline"
  | percent => "Percent"
  | openParen => "OpenParen"
  | closeParen => "CloseParen"
  | semicolon => "Semicolon"
  | atSign => "At"
  | backtick => "Backtick"
  | openBrace => "OpenBrace"
  | closeBrace => "CloseBrace"
  | colon => "Colon"
  | background => "Background"
  | and => "And"
  | or => "Or"
  | pipe => "Pipe"
  | redirect => "Redirect"
  | substitute => "Substitute"
  | cons => "Cons"
  | singleQuoted => "SingleQuoted"
  | doubleQuoted => "DoubleQuoted"
  | bangString => "BangString"
  | symbol => "Symbol"
  | braceExpansion => "BraceExpansion"
  | error => "Error"
  | endOfInput => "EndOfInput"
  | interrupt => "Interrupt"

def ofName? (name : String) : Option Kind := all.find? (·.name = name)

/-- The character that a token of the kind stands for, where that is always the same one. -/
def char? : Kind → Option Char
  | newline => some '\n'
  | percent => some '%'
  | openParen => some '('
  | closeParen => some ')'
  | semicolon => some ';'
  | atSign => some '@'
  | backtick => some '`'
  | openBrace => some '\x7b'
  | closeBrace => some '\x7d'
  | colon => some ':'
  | _ => none

/-- The kind of the token that a character is on its own. -/
def ofChar? (c : Char) : Option Kind := all.find? (·.char? = some c)

/-- A command that ends in one of these carries on past the end of the line. -/
def continuesLine : Kind → Bool
  | background | and | or | pipe | redirect => true
  | _ => false

/-- A group begins with the token. -/
def opensGroup : Kind → Bool
  | openParen | openBrace => true
  | _ => false

/-- A group ends with the token. -/
def closesGroup : Kind → Bool
  | closeParen | closeBrace => true
  | _ => false

theorem mem_all (k : Kind) : k ∈ all := by cases k <;> decide

/-- Names tell kinds apart. -/
theorem ofName?_name (k : Kind) : ofName? k.name = some k := by cases k <;> rfl

/-- Reading a character and writing it are inverse to each other. -/
theorem ofChar?_eq_some_iff {c : Char} {k : Kind} : ofChar? c = some k ↔ k.char? = some c := by
  constructor
  · intro h
    simpa using List.find?_some h
  · intro h
    cases k <;> simp only [char?, Option.some.injEq, reduceCtorEq] at h <;> subst h <;> rfl

end Kind

end ShellTokens
