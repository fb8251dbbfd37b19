import ShellTokens.Scanner.Basic

/-!
# The scanner gets on

A measure of the work that is left falls with every step that does not halt, so scanning comes to an
end.
-/

namespace ShellTokens.Scanner

/-- What is left to do: the unread bytes, and the moves that read none. -/
def work (s : Scanner) : Nat := 3 * s.cursor.unread.length + s.state.rank

theorem work_marked (s : Scanner) : s.marked.work = s.work := by
  unfold marked
  split <;> rfl

theorem work_lt_of_read {s t : Scanner} {banged : Bool} {r : Rune}
    (hr : s.cursor.peek = r) (hm : s.state.respond banged r ≠ .halt)
    (ht : t.cursor.unread = s.cursor.next.2.unread) : t.work < s.work := by
  have hw : 0 < r.width := Rune.width_pos fun h => hm (State.respond_eq_halt_iff.2 h)
  have hn := s.cursor.length_unread_next
  have := t.state.rank_le_two
  simp only [work, ht, hr] at *
  omega

/-- Behind a finished token only the unread bytes are left. -/
theorem work_of_finish {kind : Kind} {s t : Scanner} (h : (s.finish kind).on? = some t) :
    t.work = 3 * s.cursor.unread.length := by
  simp only [finish] at h
  split at h <;> cases h <;> simp [work, record, State.rank, Cursor.unread_mark]

theorem cursor_resumed (s : Scanner) : s.resumed.cursor = s.cursor := by
  unfold resumed
  split <;> rfl

theorem look_work_lt {s t : Scanner} (h : s.look.on? = some t) : t.work < s.work := by
  simp only [look] at h
  split at h
  case h_1 => simp [Step.on?] at h
  case h_4 next hm =>
    have := State.rank_lt_of_become hm
    cases h
    simp only [work, s.cursor.unread_back_next]
    omega
  case h_6 hm =>
    cases h
    exact work_lt_of_read rfl (by rw [hm]; simp) (by rw [cursor_resumed])
  case h_7 kind hm =>
    have hf := work_of_finish h
    have hr := work_lt_of_read (s := s) (t := { s with cursor := s.cursor.next.2, state := .blank })
      rfl (by rw [hm]; simp) rfl
    simp only [work, State.rank] at *
    omega
  case h_8 kind hm =>
    have hf := work_of_finish h
    have hr := State.rank_pos_of_leave hm
    simp only [s.cursor.unread_back_next] at hf
    simp only [work] at *
    omega
  case h_9 hm =>
    cases h
    exact work_lt_of_read rfl (by rw [hm]; simp) (by rw [cursor_resumed])
  all_goals
    rename_i hm
    cases h
    exact work_lt_of_read rfl (by rw [hm]; simp) rfl

/-- A step that does not halt leaves less to do. -/
theorem step_work_lt {s t : Scanner} (h : s.step.on? = some t) : t.work < s.work := by
  rw [← work_marked s]
  exact look_work_lt h

theorem finish_ne_halt (kind : Kind) (s t : Scanner) : s.finish kind ≠ .halt t := by
  simp only [finish]
  split <;> simp

/-- Halting changes nothing but where the next token begins. -/
theorem step_halt {s t : Scanner} (h : s.step = .halt t) : t = s.marked := by
  simp only [step, look] at h
  split at h
  case h_1 => simpa using h.symm
  case h_7 => exact absurd h (finish_ne_halt _ _ t)
  case h_8 => exact absurd h (finish_ne_halt _ _ t)
  all_goals simp at h

/-- Input adds to the work what it is long. -/
theorem work_append_le (input : List UInt8) (s : Scanner) :
    (s.append input).work ≤ s.work + 3 * input.length := by
  have h := s.cursor.length_unread_append_le input
  simp only [work, append]
  omega

end ShellTokens.Scanner
