import ShellTokens.Session.Progress

/-! # Reading on until there is something to say -/

namespace ShellTokens

/-- A token in the hands of a reader, with the first word and the line count right after it. -/
structure Taken where
  token : Token
  word : Option String
  lines : LineCount
  deriving DecidableEq, Repr

namespace Session

/-- Takes turns until one of them is the last. The supplier has put the reader off `retries` times
since it last gave a line. -/
def pull (retries : Nat) (s : Session) : List Event × Pull × Session :=
  match _h : s.turn retries with
  | (es, .done p, t) => (es, p, t)
  | (es, .again n, t) =>
    let rest := pull n t
    (es ++ rest.1, rest.2)
  termination_by s.effort
  decreasing_by
    have := turn_effort_lt retries s (by rw [_h]; rfl)
    rwa [_h] at this

def next (s : Session) : List Event × Pull × Session := s.pull 0

/-- A token that was taken is no longer left to do. -/
theorem pull_effort_lt {retries : Nat} {s t : Session} {k : Token}
    (h : (s.pull retries).2 = (.token k, t)) : t.effort < s.effort := by
  fun_induction pull retries s with
  | case1 retries s es p u hs =>
    obtain ⟨rfl, rfl⟩ := Prod.mk.inj h
    have := turn_effort_lt retries s (by rw [hs]; rfl)
    rwa [hs] at this
  | case2 retries s es n u hs rest ih =>
    have := turn_effort_lt retries s (by rw [hs]; rfl)
    rw [hs] at this
    exact Nat.lt_trans (ih h) this

/-- All tokens that come one after the other, and what comes instead of another one. -/
def drain (s : Session) : List Event × List Taken × Pull × Session :=
  match _h : s.next with
  | (es, .token k, t) =>
    let rest := t.drain
    (es ++ rest.1, ⟨k, t.firstWord?, t.lines⟩ :: rest.2.1, rest.2.2)
  | (es, p, t) => (es, [], p, t)
  termination_by s.effort
  decreasing_by exact pull_effort_lt (congrArg Prod.snd _h)

end Session

end ShellTokens
