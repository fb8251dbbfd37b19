import ShellTokens.Scanner.Progress

/-! # Scanning on to the next token -/

namespace ShellTokens.Scanner

def scan (s : Scanner) : Option Emission × Scanner :=
  match _h : s.step with
  | .halt t => (none, t)
  | .silent t => t.scan
  | .emit e t => (some e, t)
  termination_by s.work
  decreasing_by exact step_work_lt (by rw [_h]; rfl)

theorem scan_work_lt {s t : Scanner} {e : Emission} (h : s.scan = (some e, t)) :
    t.work < s.work := by
  fun_induction scan s with
  | case1 => simp at h
  | case2 s u hs ih => exact Nat.lt_trans (ih h) (step_work_lt (by rw [hs]; rfl))
  | case3 s e' u hs =>
    simp only [Prod.mk.injEq, Option.some.injEq] at h
    exact h.2 ▸ step_work_lt (by rw [hs]; rfl)

theorem scan_work_le {s t : Scanner} (h : s.scan = (none, t)) : t.work ≤ s.work := by
  fun_induction scan s with
  | case1 s u hs =>
    simp only [Prod.mk.injEq, true_and] at h
    exact Nat.le_of_eq (by rw [← h, step_halt hs, work_marked])
  | case2 s u hs ih => exact Nat.le_trans (ih h) (Nat.le_of_lt (step_work_lt (by rw [hs]; rfl)))
  | case3 => simp at h

/-- Scans to the end of the input. Each emission comes with the first word right after it. -/
def drain (s : Scanner) : List (Emission × Option String) × Scanner :=
  match _h : s.scan with
  | (none, t) => ([], t)
  | (some e, t) =>
    let rest := t.drain
    ((e, t.words.word?) :: rest.1, rest.2)
  termination_by s.work
  decreasing_by exact scan_work_lt _h

end ShellTokens.Scanner
