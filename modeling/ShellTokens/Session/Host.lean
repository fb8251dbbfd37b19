import ShellTokens.Session.Reader

/-!
# The program around a session

A host owns a session, keeps a handle on it to send signals with, and may take the values that its
parser finishes.
-/

namespace ShellTokens

/-- `accepts` looks at all values that have been received and says whether the parser may go on. -/
structure Host (α : Type) where
  /-- Nothing once the host has let go of it. -/
  session : Option Session
  accepts : Option (List α → Bool) := none
  received : List α := []

namespace Host

variable {α : Type}

inductive Step (α : Type) where
  | next
  /-- Asks for a token in any case. -/
  | lex
  /-- Asks for tokens until there is none. -/
  | drain
  | feed (text : String)
  | settle
  | probe (line : String)
  | abort (message : String)
  | submit (value : α)
  | label
  | activate
  | reset
  | discard
  | shutdown
  | send (signal : Signal)
  | drop
  deriving DecidableEq, Repr

inductive Outcome where
  | done
  | pulled (p : Pull)
  | drained (tokens : List Taken) (last : Pull)
  /-- Input was taken, or was refused with the failure. -/
  | fed (refusal : Option Failure)
  | probed (p : Probe)
  | failed (f : Failure)
  /-- The parser may go on, or is to stop. -/
  | accepted (goOn : Bool)
  | labelled (label : String)
  | dropped
  deriving DecidableEq, Repr

/-- The handle tells that the session still scans. -/
def isAlive (h : Host α) : Bool := h.session.any (·.alive)

/-- A value that the parser has finished. Without anyone to take it the parser just goes on. -/
def submit (value : α) (h : Host α) : Bool × Host α :=
  match h.accepts with
  | none => (true, h)
  | some accepts =>
    let received := h.received ++ [value]
    (accepts received, { h with received })

def withSession (h : Host α) (s : Session) : Host α := { h with session := some s }

/-- A step when there is no session. Only what goes through the handle still goes through. -/
def actDropped : Step α → Outcome
  | .settle | .send _ | .drop => .done
  | _ => .dropped

def act (step : Step α) (s : Session) (h : Host α) : List Event × Outcome × Host α :=
  match step with
  | .next =>
    let r := s.next
    (r.1, .pulled r.2.1, h.withSession r.2.2)
  | .lex =>
    let r := s.next
    (r.1, .pulled r.2.1.orEnd, h.withSession r.2.2)
  | .drain =>
    let r := s.drain
    (r.1, .drained r.2.1 r.2.2.1, h.withSession r.2.2.2)
  | .feed text =>
    let r := s.feed text
    ([], .fed r.1, h.withSession r.2)
  | .settle =>
    let r := s.settle
    (r.1, .done, h.withSession r.2)
  | .probe line => ([], .probed (s.probe line), h)
  | .abort message =>
    let r := s.abort message
    (r.2.1, .failed r.1, h.withSession r.2.2)
  | .submit value =>
    let r := h.submit value
    ([], .accepted r.1, r.2)
  | .label => ([], .labelled s.label, h)
  | .activate => ([], .done, h.withSession s.activate)
  | .reset => ([], .done, h.withSession s.reset)
  | .discard =>
    let r := s.discard
    (r.1, .done, h.withSession r.2)
  | .shutdown =>
    let r := s.shutdown
    (r.1, .done, h.withSession r.2)
  | .send signal => ([], .done, h.withSession (s.send signal))
  | .drop => ([], .done, { h with session := none })

def perform (step : Step α) (h : Host α) : List Event × Outcome × Host α :=
  match h.session with
  | none => ([], actDropped step, h)
  | some s => act step s h

end Host

end ShellTokens
