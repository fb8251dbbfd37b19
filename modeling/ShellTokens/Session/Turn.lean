import ShellTokens.Session.Basic

/-!
# Reading tokens from a session

The reader goes round in turns. In each it looks, in this order, for a failure, a signal, the end of
the session, a token of the scan task, and a line of the supplier.
-/

namespace ShellTokens

inductive Pull where
  | token (t : Token)
  /-- There are no more tokens for now. -/
  | nothing
  | failed (f : Failure)
  /-- The supplier does not answer, so the reader would wait for ever. -/
  | blocked
  deriving DecidableEq, Repr

/-- A parser that wants a token in any case gets the end of input where there is none. -/
def Pull.orEnd : Pull → Pull
  | .nothing => .token .endOfInput
  | p => p

inductive Turn where
  | done (p : Pull)
  /-- Another turn is needed. The supplier has put the reader off so many times in a row. -/
  | again (retries : Nat)
  deriving DecidableEq, Repr

/-- The reader goes on after the turn, at once or when its token has been dealt with. -/
def Turn.goesOn : Turn → Bool
  | .again _ => true
  | .done (.token _) => true
  | .done _ => false

namespace Session

/-- A line, or the last text of the input, is scanned. Lines that a backslash continues are joined,
and the last text gets a line end. -/
def receive (text : String) (last : Bool) (s : Session) : Session :=
  let s := { s with lines := s.lines + 1, supplier := if last then none else s.supplier }
  (s.append (Text.joined text ++ if last then "\n" else "")).spawn

def answered (retries : Nat) (a : Answer) (s : Session) : List Event × Turn × Session :=
  match a with
  | .line text => ([], .again 0, s.receive text false)
  | .retry => ([.retrying s.label (retries + 1)], .again (retries + 1), s)
  | .cancelled => ([.cancelled s.label], .done (.token .interrupt), s)
  | .eof rest => ([.endOfInput s.label (s.lines + 1)], .again retries, s.receive rest true)
  | .fatal rest reason =>
    ([.inputFailed s.label (s.lines + 1) reason], .done (.token (.error reason)),
      s.receive rest true)

/-- Calls the supplier. Signals that are sent during the call wait until its answer has been dealt
with. Without an answer, a signal ends the call. -/
def ask (retries : Nat) (supplier : Supplier) (s : Session) : List Event × Turn × Session :=
  let call := supplier.ask.1
  let requesting := .requesting s.label (s.lines + 1)
  let s := { s with supplier := some supplier.ask.2 }.sendAll call.signals
  match call.answer with
  | some a =>
    let answered := s.answered retries a
    (requesting :: answered.1, answered.2)
  | none => ([requesting], if s.signals.isEmpty then .done .blocked else .again retries, s)

def heed (retries : Nat) (signal : Signal) (s : Session) : List Event × Turn × Session :=
  match signal with
  | .interrupt => ([.interrupted s.label], .done (.token .interrupt), s)
  | .shutdown => ([.shutDownFromOutside s.label], .again retries, s.close)

/-- Waits for the scan task: takes its token, or notices that it has ended. -/
def await (retries : Nat) (s : Session) : List Event × Turn × Session :=
  let settled := s.settle
  let s := settled.2
  match s.handoff with
  | some { task := some { offered := some t, closed }, rescan } =>
    (settled.1, .done (.token t), { s with handoff := some { task := some { closed }, rescan } })
  | some { rescan := true, .. } => (settled.1, .again retries, s.spawn)
  | _ => (settled.1, .again retries, { s with handoff := none })

def turn (retries : Nat) (s : Session) : List Event × Turn × Session :=
  match s.failure, s.signals with
  | some f, _ => ([], .done (.failed f), s)
  | none, signal :: later => heed retries signal { s with signals := later }
  | none, [] =>
    if !s.alive then ([], .done .nothing, s)
    else
      match s.handoff, s.supplier with
      | some _, _ => s.await retries
      | none, none => ([], .done .nothing, s)
      | none, some supplier => s.ask retries supplier

end Session

end ShellTokens
