import ShellTokens.Prompt.Entry
import ShellTokens.Session.Reader
import ShellTokens.Token.Display

/-!
# A session at the prompt

Each line that is typed is scanned, and its tokens are shown, each with the first word that is found
then. The scan task may be one token ahead by that time.
-/

namespace ShellTokens.Prompt

inductive Shown where
  /-- The prompt, and what typing wrote behind it. -/
  | entry (e : Entry)
  | token (t : Token) (word : String)
  | failure (f : Failure)
  deriving DecidableEq, Repr

/-- The text with blanks behind it up to a width. -/
def padded (width : Nat) (text : String) : String :=
  String.ofList (text.toList.rightpad width ' ')

def Shown.text : Shown → String
  | .entry e => "> " ++ e.echo
  | .token t word =>
    "  " ++ padded 32 t.display ++ " first word " ++ Text.quoted word ++ lineEnd
  | .failure f => f.message ++ lineEnd

/-- Says of each call that the prompt makes without waiting whether the scan task has its turn just
before it. -/
def Schedule := Nat → Bool

/-- The task works only while the reader waits for it. -/
def Schedule.idle : Schedule := fun _ => false

/-- The schedule behind the first `n` calls. -/
def Schedule.drop (n : Nat) (turns : Schedule) : Schedule := fun i => turns (n + i)

/-- The scan task has its turn, or it has not. -/
def pass (turn : Bool) (s : Session) : Session := if turn then s.settle.2 else s

/-- The half-typed command is forgotten. -/
def restart (turns : Schedule) (s : Session) : Session :=
  (pass (turns 1) (pass (turns 0) s).reset).discard.2

theorem pass_effort_le (turn : Bool) (s : Session) : (pass turn s).effort ≤ s.effort := by
  unfold pass
  split
  · exact s.settle_effort_le
  · exact Nat.le_refl _

theorem restart_effort_le (turns : Schedule) (s : Session) :
    (restart turns s).effort ≤ s.effort := by
  have hd (u : Session) : u.discard.2.effort ≤ u.effort := by
    simp [Session.discard, Session.hangUp, Session.effort, Scanner.discard, Scanner.work,
      State.rank, Cursor.length_unread]
    omega
  calc (restart turns s).effort
      ≤ (pass (turns 1) (pass (turns 0) s).reset).effort := hd _
    _ ≤ (pass (turns 0) s).reset.effort := pass_effort_le _ _
    _ ≤ s.effort := pass_effort_le (turns 0) s

/-- Shows token after token until there are no more. The entries are what the supplier of the
session will answer, and those that it was not asked for are left. -/
def transcript (turns : Schedule) (s : Session) (entries : List Entry) :
    List Shown × List Entry :=
  match _h : s.next with
  | (es, p, t) =>
    let asked := es.countP Event.isRequest
    let typed := (entries.take asked).map .entry
    let left := entries.drop asked
    match p with
    | .token k =>
      let rest :=
        if k.isFatal then transcript (turns.drop 2) (restart turns t) left
        else
          -- The task is woken when its token is taken, and the word is read only then.
          let t := pass (turns 0) t
          let rest := transcript (turns.drop 1) t left
          (.token k (t.firstWord?.getD "") :: rest.1, rest.2)
      (typed ++ rest.1, rest.2)
    | .nothing | .blocked => (typed, left)
    | .failed f => (typed ++ [.failure f], left)
  termination_by s.effort
  decreasing_by
    · exact Nat.lt_of_le_of_lt (restart_effort_le turns t)
        (Session.pull_effort_lt (congrArg Prod.snd _h))
    · exact Nat.lt_of_le_of_lt (pass_effort_le (turns 0) _)
        (Session.pull_effort_lt (congrArg Prod.snd _h))

/-- The session at a prompt where the entries will be typed. -/
def session (entries : List Entry) : Session :=
  .start { label := "tty", interactive := true } (some (.ofAnswers (entries.map (·.answer))))

/-- What is on the screen in the end, and how many keys have not been read. -/
structure Screen where
  shown : List Shown
  unread : Nat
  deriving DecidableEq, Repr

/-- All that has been written to the screen. -/
def Screen.text (s : Screen) : String := String.join (s.shown.map Shown.text)

/-- A prompt where the keys are pressed, from its start to its end. -/
def run (keys : List Key) (turns : Schedule := .idle) : Screen :=
  let typed := entries keys
  let r := transcript turns (session typed) typed
  ⟨r.1, r.2.foldl (fun n e => n + e.events) 0⟩

end ShellTokens.Prompt
