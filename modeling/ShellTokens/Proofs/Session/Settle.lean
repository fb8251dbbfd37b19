import ShellTokens.Proofs.Session.Signals

/-!
# When the scan task has its turn

What a reader gets does not depend on whether the task has its turn before the reader looks. The
first words do: they may already be those behind one token more.
-/

namespace ShellTokens

open Event (requests requests_append requests_of_any)

/-! ## One turn -/

theorem Task.work_work {alive : Bool} {task task' : Task} {s : Scanner}
    (h : (task.work alive s).task = some task') (t : Scanner) :
    task'.work alive t = { task := some task', scanner := t } := by
  have hwaits : task'.closed = false ∧ task'.offered.isSome = true := by
    unfold work at h
    cases hc : task.closed with
    | true => simp [hc] at h
    | false =>
      cases ho : task.offered with
      | some k =>
        obtain rfl : task = task' := by simpa [hc, ho] using h
        exact ⟨hc, by rw [ho]; rfl⟩
      | none =>
        cases alive with
        | false => simp [hc, ho] at h
        | true =>
          rcases hs : s.scan with ⟨_ | e, u⟩
          · simp [hc, ho, hs] at h
          · simp only [hc, ho, hs, Bool.false_eq_true, if_false, Option.isSome_none,
              Bool.not_true, Option.some.injEq] at h
            rw [← h]
            exact ⟨rfl, rfl⟩
  unfold work
  rw [if_neg (by simp [hwaits.1]), if_pos hwaits.2]

namespace Session

variable {s t : Session} {rescan : Bool}

theorem settle_settle (h : s.Sound) : s.settle.2.settle = ([], s.settle.2) := by
  unfold settle
  rw [Task.workAll_closed h.abandoned]
  rcases hh : s.handoff with _ | ⟨_ | task, rescan⟩
  · rfl
  · rfl
  · simp only
    cases ht : (task.work s.alive s.scanner).task with
    | none => rfl
    | some task' =>
      simp only [Task.workAll, Task.work_work ht]
      rfl

theorem settle_of_no_task (h : s.Sound) (hh : s.handoff = none) :
    s.settle.2 = { s with abandoned := [] } := by
  unfold settle
  rw [Task.workAll_closed h.abandoned, hh]

theorem settle_of_task (h : s.Sound) (ha : s.alive = true)
    (hh : s.handoff = some ⟨some {}, rescan⟩) :
    s.settle.2.scanner = s.scanner.scan.2 := by
  unfold settle
  rw [Task.workAll_closed h.abandoned, hh, ha]
  simp only [Task.work, Bool.false_eq_true, if_false, Option.isSome_none, Bool.not_true]
  split
  · next hs => rw [hs]
  · next hs => rw [hs]

/-- What comes out when the task has its turn. A task that has ended or waits with a token scans no
further. -/
def upcoming (s : Session) : List Emission :=
  if s.alive ∧ s.handoff.any (·.task = some {}) then s.scanner.emissions.take 1 else []

theorem upcoming_isPrefix (s : Session) :
    s.upcoming.length ≤ 1 ∧ s.upcoming <+: s.scanner.emissions := by
  unfold upcoming
  split
  · exact ⟨List.length_take_le 1 _, List.take_prefix 1 _⟩
  · exact ⟨Nat.zero_le 1, List.nil_prefix⟩

theorem words_settle (h : s.Sound) :
    s.settle.2.scanner.words = s.upcoming.foldl Emission.noted s.scanner.words := by
  have hscan : s.scanner.scan.1.toList = s.scanner.emissions.take 1 := by
    rw [Scanner.emissions_scan]
    cases hs : s.scanner.scan.1 with
    | none =>
      rw [Scanner.emissions_of_scan_none (Prod.ext hs rfl)]
      rfl
    | some e => rfl
  unfold settle upcoming
  rw [Task.workAll_closed h.abandoned]
  rcases hh : s.handoff with _ | ⟨_ | ⟨offered, closed⟩, rescan⟩
  · simp
  · simp
  · obtain rfl : closed = false := h.opened _ _ hh rfl
    cases offered with
    | some k => simp [Task.work]
    | none =>
      cases ha : s.alive with
      | false => simp [Task.work]
      | true =>
        have hwords := s.scanner.words_scan
        rw [hscan] at hwords
        simp only [Task.work, Bool.false_eq_true, if_false, Option.isSome_none, Bool.not_true]
        rcases hs : s.scanner.scan with ⟨_ | e, c⟩ <;> simp [← hwords, hs]

theorem Waits.settle (hw : s.Waits) (h : s.Sound) : s.settle.2.Waits :=
  hw.of_outlook (settle_spec h).2.2.1

/-! ## What the reader does then -/

theorem next_settle (h : s.Sound) (hw : s.Waits) (hh : s.handoff.isSome = true) :
    s.settle.2.next.2 = s.next.2 ∧ requests s.settle.2.next.1 = requests s.next.1 := by
  have hh' := settle_handoff_isSome hh
  have hturn : s.settle.2.turn 0 = ([], (s.turn 0).2) ∧ requests (s.turn 0).1 = 0 := by
    rw [turn_of_handoff (hw.settle h) hh', turn_of_handoff hw hh, await_eq, await_eq,
      settle_settle h]
    exact ⟨rfl, requests_of_any (any_of_noted s.settle_unasked.1).1⟩
  rcases ht : s.turn 0 with ⟨es, p | n, t⟩
  · rw [ht] at hturn
    rw [next, next, pull_of_done ht, pull_of_done hturn.1]
    exact ⟨rfl, hturn.2.symm⟩
  · rw [ht] at hturn
    rw [next, next, pull_of_again ht, pull_of_again hturn.1]
    refine ⟨rfl, ?_⟩
    rw [requests_append, requests_append, hturn.2]
    rfl

end Session

end ShellTokens
