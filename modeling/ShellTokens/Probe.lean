import ShellTokens.Scanner.Scan
import ShellTokens.Session.Failure

/-!
# Trying a line out

A probe scans a line on a copy of what a session has, to see what tokens would come and whether the
line can be run as it is. It never asks for more input.
-/

namespace ShellTokens

/-- `held` is a token that the session has scanned but not handed out. It comes first. -/
structure Probe where
  scanner : Scanner
  held : Option Token := none
  label : String
  lines : LineCount
  deriving DecidableEq, Repr

namespace Probe

/-- The next token, or nothing at the end of the line. -/
def next (p : Probe) : Option Emission × Probe :=
  match p.held with
  | some t => (some (.token t), { p with held := none })
  | none =>
    let r := p.scanner.scan
    (r.1, { p with scanner := r.2 })

def drain (p : Probe) : List Emission × Probe :=
  let r := p.scanner.drain
  (p.held.toList.map .token ++ r.1.map (·.1), { p with held := none, scanner := r.2 })

/-- At the end of the line nothing is under way, so the line could be run as it is. -/
def isComplete (p : Probe) : Bool := p.drain.2.scanner.isSettled

def firstWord? (p : Probe) : Option String := p.scanner.words.word?

/-- The failure of a parser that gives up here. The probe goes on as before. -/
def abort (message : String) (p : Probe) : Failure := .aborted p.label p.lines message

/-- A value that the parser has finished. Nobody takes it here, and the parser goes on. -/
def submit (_ : Probe) : Bool := true

end Probe

end ShellTokens
