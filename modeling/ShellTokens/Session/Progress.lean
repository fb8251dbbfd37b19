import ShellTokens.Session.Turn

/-!
# Every turn gets on

A measure of what a session has left to do falls with every turn after which the reader goes on, so
a reader cannot go round for ever.
-/

namespace ShellTokens

/-! ## What is left to do -/

/-- The most that a call can add: its signals, its text with a line end, a new task, and one more
for the call. -/
def Call.weight (c : Call) : Nat :=
  c.signals.length + 3 * (Text.bytes ((c.answer.map Answer.text).getD "")).length + 6

/-- Behind the calls is the end of the input. -/
def Supplier.weight (s : Supplier) : Nat := s.calls.foldr (fun c n => c.weight + n) 6

def Task.weight (t : Task) : Nat := if t.offered.isSome then 1 else 0

def Handoff.weight (h : Handoff) : Nat :=
  1 + (if h.rescan then 1 else 0) + (h.task.map Task.weight).getD 0

theorem Handoff.weight_new : ({} : Handoff).weight = 1 := rfl

namespace Session

def effort (s : Session) : Nat :=
  s.scanner.work + s.signals.length + (s.handoff.map Handoff.weight).getD 0 +
    (s.supplier.map Supplier.weight).getD 0

end Session

/-! ## A task's turn -/

theorem Task.work_scanner_le (alive : Bool) (task : Task) (s : Scanner) :
    (task.work alive s).scanner.work ≤ s.work := by
  unfold Task.work
  repeat' split
  all_goals try exact Nat.le_refl _
  · rename_i h; exact Scanner.scan_work_le h
  · rename_i h; exact Nat.le_of_lt (Scanner.scan_work_lt h)

theorem Task.work_le (alive : Bool) (task : Task) (s : Scanner) :
    (task.work alive s).scanner.work + ((task.work alive s).task.map Task.weight).getD 0 ≤
      s.work + task.weight := by
  unfold Task.work
  repeat' split
  · simp
  · simp
  · simp
  · rename_i h
    have := Scanner.scan_work_le h
    simp
    omega
  · rename_i h
    have := Scanner.scan_work_lt h
    simp [Task.weight]
    omega

theorem Task.workAll_scanner_le (alive : Bool) (tasks : List Task) (s : Scanner) :
    (workAll alive tasks s).2.2.work ≤ s.work := by
  induction tasks generalizing s with
  | nil => exact Nat.le_refl _
  | cons task tasks ih =>
    exact Nat.le_trans (ih _) (task.work_scanner_le alive s)

namespace Session

/-! ## The parts of a turn -/

theorem settle_effort_le (s : Session) : s.settle.2.effort ≤ s.effort := by
  have h := Task.workAll_scanner_le s.alive s.abandoned s.scanner
  simp only [settle]
  split
  · rename_i task rescan hs
    have h' := Task.work_le s.alive task (Task.workAll s.alive s.abandoned s.scanner).2.2
    simp only [effort, hs, Handoff.weight, Option.map_some, Option.getD_some]
    omega
  · simp only [effort]
    omega

theorem settle_handoff_isSome {s : Session} (hs : s.handoff.isSome) :
    s.settle.2.handoff.isSome := by
  simp only [settle]
  split
  · rfl
  · exact hs

theorem await_effort_lt {s : Session} (hs : s.handoff.isSome) (retries : Nat) :
    (s.await retries).2.2.effort < s.effort := by
  refine Nat.lt_of_lt_of_le ?_ s.settle_effort_le
  have hs := settle_handoff_isSome hs
  simp only [await]
  generalize s.settle.2 = t at hs ⊢
  split
  · rename_i ht
    simp [effort, ht, Handoff.weight, Task.weight]
  · rename_i ht
    simp [effort, spawn, ht, Handoff.weight, Task.weight]
    omega
  · obtain ⟨h, ht⟩ := Option.isSome_iff_exists.1 hs
    simp only [effort, ht, Handoff.weight, Option.map_some, Option.map_none, Option.getD_some,
      Option.getD_none]
    omega

theorem close_effort_le (s : Session) : s.close.effort ≤ s.effort := by
  simp [close, hangUp, effort]

theorem heed_effort_le (retries : Nat) (signal : Signal) (s : Session) :
    (s.heed retries signal).2.2.effort ≤ s.effort := by
  cases signal with
  | interrupt => exact Nat.le_refl _
  | shutdown => exact s.close_effort_le

/-- Signals that come in wait in the order in which they were sent. -/
theorem sendAll_eq (signals : List Signal) (s : Session) :
    ∃ alive, s.sendAll signals = { s with signals := s.signals ++ signals, alive } := by
  induction signals generalizing s with
  | nil => exact ⟨s.alive, by simp [sendAll]⟩
  | cons signal signals ih =>
    obtain ⟨alive, h⟩ := ih (s.send signal)
    refine ⟨alive, ?_⟩
    rw [sendAll, List.foldl_cons, ← sendAll, h]
    cases signal <;> simp [send]

/-- What a call brings in is less than the call weighed. -/
theorem receive_effort_le (text : String) (last : Bool) (s : Session) :
    (s.receive text last).effort ≤
      s.scanner.work + s.signals.length + 3 * (Text.bytes text).length + 4 +
        (if last then 0 else (s.supplier.map Supplier.weight).getD 0) := by
  have h := Text.length_bytes_joined_le text
  cases last
  · have ha := s.scanner.work_append_le (Text.bytes (Text.joined text))
    simp [receive, effort, spawn, append, Handoff.weight_new]
    omega
  · have hn : (Text.bytes (Text.joined text ++ "\n")).length =
        (Text.bytes (Text.joined text)).length + 1 := by
      rw [Text.bytes_append, Text.bytes_newline, List.length_append, List.length_singleton]
    have ha := s.scanner.work_append_le (Text.bytes (Text.joined text ++ "\n"))
    simp [receive, effort, spawn, append, Handoff.weight_new]
    omega

theorem answered_effort_le (retries : Nat) (a : Answer) (s : Session) :
    (s.answered retries a).2.2.effort ≤ s.effort + 3 * (Text.bytes a.text).length + 4 := by
  cases a with
  | line text =>
    have := receive_effort_le text false s
    simp only [answered, Answer.text, effort] at this ⊢
    simp at this
    omega
  | eof rest =>
    have := receive_effort_le rest true s
    simp only [answered, Answer.text, effort] at this ⊢
    simp at this
    omega
  | retry => simp only [answered]; omega
  | cancelled => simp only [answered]; omega
  | fatal rest reason =>
    have := receive_effort_le rest true s
    simp only [answered, Answer.text, effort] at this ⊢
    simp at this
    omega

theorem ask_effort_lt (retries : Nat) {supplier : Supplier} {s : Session} (hs : s.handoff = none)
    (hp : s.supplier = some supplier) : (s.ask retries supplier).2.2.effort < s.effort := by
  obtain ⟨alive, h⟩ := sendAll_eq supplier.ask.1.signals { s with supplier := some supplier.ask.2 }
  simp only [ask, h]
  obtain ⟨calls⟩ := supplier
  cases calls with
  | nil =>
    have hr := receive_effort_le "" true { s with supplier := some ⟨[]⟩, alive }
    simp [Text.bytes_empty] at hr
    simp [Supplier.ask, answered]
    refine Nat.lt_of_le_of_lt hr ?_
    simp [effort, hp, Supplier.weight]
    omega
  | cons call later =>
    simp only [Supplier.ask]
    cases ha : call.answer with
    | none =>
      simp [effort, hs, hp, Supplier.weight, Call.weight]
      omega
    | some a =>
      refine Nat.lt_of_le_of_lt (answered_effort_le retries a _) ?_
      simp [effort, hs, hp, Supplier.weight, Call.weight, ha]
      omega

/-! ## A turn -/

theorem turn_effort_lt (retries : Nat) (s : Session) (h : (s.turn retries).2.1.goesOn) :
    (s.turn retries).2.2.effort < s.effort := by
  revert h
  unfold turn
  split
  · simp [Turn.goesOn]
  · rename_i signal later _ hs
    intro _
    refine Nat.lt_of_le_of_lt (heed_effort_le retries signal _) ?_
    simp [effort, hs]
  · split
    · simp [Turn.goesOn]
    split
    · rename_i hs
      intro _
      exact await_effort_lt (by simp [hs]) retries
    · simp [Turn.goesOn]
    · rename_i hs hp
      intro _
      exact ask_effort_lt retries hs hp

end Session

end ShellTokens
