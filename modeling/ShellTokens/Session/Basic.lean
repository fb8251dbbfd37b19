import ShellTokens.Probe
import ShellTokens.Session.Event
import ShellTokens.Supplier
import ShellTokens.Text.Joined

/-!
# A session

A session reads its input with two parties. A scan task scans ahead and hands its tokens over one
at a time, so it is never more than one token ahead. The reader takes the tokens and, when the task
has ended for want of input, fetches a line and starts a new task. The task works only when it is
given its turn.
-/

namespace ShellTokens

/-- A scan task that has not ended. -/
structure Task where
  /-- The token that it waits with until the reader takes it. -/
  offered : Option Token := none
  /-- The reader has turned away from it. -/
  closed : Bool := false
  deriving DecidableEq, Repr

structure Shift where
  events : List Event := []
  /-- Nothing once it has ended. -/
  task : Option Task
  scanner : Scanner
  deriving DecidableEq, Repr

namespace Task

/-- The task has its turn. It goes on until it has a token to offer or until it ends. -/
def work (alive : Bool) (task : Task) (s : Scanner) : Shift :=
  if task.closed then { task := none, scanner := s }
  else if task.offered.isSome then { task := some task, scanner := s }
  else if !alive then { task := none, scanner := s }
  else
    match s.scan with
    | (none, t) => { task := none, scanner := t }
    | (some e, t) =>
      { events := e.events, task := some { task with offered := some e.toToken }, scanner := t }

def workAll (alive : Bool) : List Task → Scanner → List Event × List Task × Scanner
  | [], s => ([], [], s)
  | task :: tasks, s =>
    let shift := task.work alive s
    let rest := workAll alive tasks shift.scanner
    (shift.events ++ rest.1, shift.task.toList ++ rest.2.1, rest.2.2)

end Task

/-- What the reader has of the task that it started last. `task` is nothing once that has ended,
which the reader notices when it looks, and `rescan` says that input came in meanwhile. -/
structure Handoff where
  task : Option Task := some {}
  rescan : Bool := false
  deriving DecidableEq, Repr

def Handoff.offered? (h : Handoff) : Option Token := h.task.bind (·.offered)

/-- How a session begins. `lines` have been read before. -/
structure Options where
  label : String := "stdin"
  lines : LineCount := 0
  interactive : Bool := false
  deriving DecidableEq, Repr

/-- A session with its reader, its scan tasks and its supplier. -/
structure Session where
  label : String
  lines : LineCount
  scanner : Scanner
  /-- Nothing while the reader knows of no task. -/
  handoff : Option Handoff := none
  /-- Tasks that the reader has turned away from and that have not had their turn since. -/
  abandoned : List Task := []
  supplier : Option Supplier := none
  alive : Bool := true
  signals : List Signal := []
  failure : Option Failure := none
  deriving DecidableEq, Repr

namespace Session

def start (o : Options) (supplier : Option Supplier) : Session :=
  { label := o.label, lines := o.lines, scanner := .fresh o.interactive, supplier }

/-! ## What can be seen -/

def firstWord? (s : Session) : Option String := s.scanner.words.word?

/-- A token that has been scanned and not yet been taken. -/
def held? (s : Session) : Option Token := s.handoff.bind (·.offered?)

/-- A trial of a line on a copy of the session's input. -/
def probe (line : String) (s : Session) : Probe :=
  { scanner := s.scanner.append (Text.bytes line)
    held := s.held?
    label := s.label
    lines := s.lines }

/-! ## The scan task -/

def spawn (s : Session) : Session := { s with handoff := some {} }

/-- The reader turns away from the task, and whatever that offers is lost. -/
def hangUp (s : Session) : Session :=
  let left := (s.handoff.bind (·.task)).toList.map ({ · with closed := true })
  { s with handoff := none, abandoned := s.abandoned ++ left }

def settle (s : Session) : List Event × Session :=
  let rest := Task.workAll s.alive s.abandoned s.scanner
  let s := { s with abandoned := rest.2.1, scanner := rest.2.2 }
  match s.handoff with
  | some { task := some task, rescan } =>
    let shift := task.work s.alive s.scanner
    (rest.1 ++ shift.events,
      { s with scanner := shift.scanner, handoff := some { task := shift.task, rescan } })
  | _ => (rest.1, s)

/-! ## From outside -/

/-- A signal comes in. A shutdown tells at once. -/
def send (signal : Signal) (s : Session) : Session :=
  let s := { s with signals := s.signals ++ [signal] }
  match signal with
  | .interrupt => s
  | .shutdown => { s with alive := false }

def sendAll (signals : List Signal) (s : Session) : Session := signals.foldl (fun s x => s.send x) s

/-- Scans `text` after all input so far. -/
def append (text : String) (s : Session) : Session :=
  { s with scanner := s.scanner.append (Text.bytes text) }

/-- Adds input directly. A task that is at work may have missed it. -/
def feed (text : String) (s : Session) : Option Failure × Session :=
  match s.failure with
  | some f => (some f, s)
  | none =>
    if !s.alive then (some .shutDown, s)
    else
      match s.handoff with
      | some h => (none, { s.append text with handoff := some { h with rescan := true } })
      | none => (none, (s.append text).spawn)

/-- Starts to track first words, at the outermost group. -/
def activate (s : Session) : Session :=
  { s with scanner := { s.scanner with words := .fresh } }

/-- Starts over with the first words, if they are tracked. -/
def reset (s : Session) : Session :=
  { s with scanner := { s.scanner with words := s.scanner.words.reset } }

/-- Throws away all that has not been handed out. -/
def discard (s : Session) : List Event × Session :=
  let s := s.hangUp
  ([.discarded s.label], { s with scanner := s.scanner.discard })

def close (s : Session) : Session := { s.hangUp with alive := false }

def shutdown (s : Session) : List Event × Session := ([.shuttingDown s.label], s.close)

/-- The parser gives up. Every later call fails with the failure. -/
def abort (message : String) (s : Session) : Failure × List Event × Session :=
  let failure := .aborted s.label s.lines message
  (failure, [.aborting failure], { s.close.reset with failure := some failure })

end Session

end ShellTokens
