import ShellTokens.Prompt.Transcript

/-!
# The command line

Reads what is typed from standard input and shows the tokens. Control characters stand for the keys
that send them.
-/

namespace ShellTokens.Prompt

def Key.ofChar : Char → Key
  | '\n' | '\r' => .enter
  | '\x1b' => .esc
  | '\x08' | '\x7f' => .backspace
  | '\x03' => .char 'c' onlyCtrl
  | '\x04' => .char 'd' onlyCtrl
  | c => .char c {}

end ShellTokens.Prompt

open ShellTokens.Prompt in
def main : IO Unit := do
  let typed ← (← IO.getStdin).readToEnd
  IO.print (run (typed.toList.map Key.ofChar)).text
