import ShellTokens.Token.Basic

/-!
# The first word of a command

A shell wants to know which word stands where a command's name is expected. Each open group has a
word of its own, so the words form a stack with the innermost group on top.
-/

namespace ShellTokens

/-- The first words of the open groups. -/
inductive FirstWords where
  /-- Nobody wants to know. -/
  | untracked
  /-- The word of the innermost group, empty until there is one, and those of the groups around. -/
  | tracked (word : String) (outer : List String)
  deriving DecidableEq, Repr

namespace FirstWords

def fresh : FirstWords := .tracked "" []

def word? : FirstWords → Option String
  | .untracked => none
  | .tracked word _ => some word

/-- How many groups are open, the outermost included. -/
def depth : FirstWords → Nat
  | .untracked => 0
  | .tracked _ outer => outer.length + 1

def reset : FirstWords → FirstWords
  | .untracked => .untracked
  | .tracked _ _ => fresh

/-- Takes note of a token. The first plain word of a group counts, a colon makes room for another
one, and the outermost group is never closed. -/
def observe (t : Token) : FirstWords → FirstWords
  | .untracked => .untracked
  | .tracked word outer =>
    match t.kind with
    | .symbol => if word = "" then .tracked t.text outer else .tracked word outer
    | .openParen | .openBrace => .tracked "" (word :: outer)
    | .closeParen | .closeBrace =>
      match outer with
      | [] => .tracked word []
      | w :: rest => .tracked w rest
    | .colon => .tracked "" outer
    | _ => .tracked word outer

inductive Change where
  | activate
  | reset
  | observe (t : Token)
  deriving DecidableEq, Repr

def change (w : FirstWords) : Change → FirstWords
  | .activate => fresh
  | .reset => w.reset
  | .observe t => w.observe t

end FirstWords

end ShellTokens
