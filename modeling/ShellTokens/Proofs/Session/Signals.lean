import ShellTokens.Proofs.Session.Lossless

/-!
# Signals come first

The reader takes the signals that wait before it looks at anything else. With an interrupt it comes
back. A shutdown ends the session, and the reader goes on to the next signal.
-/

namespace ShellTokens

open Event (noted noted_append noted_events)

namespace Session

variable {s t u : Session} {later : List Signal}

/-- The interrupts that wait for the reader. -/
def queued (s : Session) : Nat := s.signals.count .interrupt

/-- Nobody has asked the supplier on the way from `s` to `t`. -/
structure Unasked (s t : Session) : Prop where
  lines : t.lines = s.lines
  supplier : t.supplier = s.supplier
  alive : t.alive = true → s.alive = true

theorem Unasked.dead (h : s.Unasked t) (ha : s.alive = false) : t.alive = false := by
  apply Bool.eq_false_iff.2
  intro ht
  simp [h.alive ht] at ha

/-- All that has been done on the way is to take signals. A token that the scan task has offered
still waits, unless the session has been shut down. -/
structure OnlyHeeds (s t : Session) : Prop extends s.Unasked t where
  scanner : t.scanner = s.scanner
  failure : t.failure = s.failure
  handoff : t.handoff = s.handoff ∨ t.handoff = none ∧ t.alive = false

theorem unasked_of_dead (hl : t.lines = s.lines) (hp : t.supplier = s.supplier)
    (ha : t.alive = false) : s.Unasked t := by
  refine ⟨hl, hp, fun h => ?_⟩
  simp [ha] at h

theorem OnlyHeeds.trans (h : s.OnlyHeeds t) (h' : t.OnlyHeeds u) : s.OnlyHeeds u := by
  refine ⟨⟨h'.lines.trans h.lines, h'.supplier.trans h.supplier, fun ha => h.alive (h'.alive ha)⟩,
    h'.scanner.trans h.scanner, h'.failure.trans h.failure, ?_⟩
  rcases h'.handoff with hh | hh
  · rcases h.handoff with hs | ⟨hs, ha⟩
    · exact .inl (hh.trans hs)
    · exact .inr ⟨hh.trans hs, h'.dead ha⟩
  · exact .inr hh

theorem onlyHeeds_signals (signals : List Signal) (s : Session) :
    s.OnlyHeeds { s with signals } :=
  ⟨⟨rfl, rfl, id⟩, rfl, rfl, .inl rfl⟩

theorem onlyHeeds_close (s : Session) : s.OnlyHeeds s.close :=
  ⟨unasked_of_dead rfl rfl rfl, rfl, rfl, .inr ⟨rfl, rfl⟩⟩

/-- The reader takes the shutdowns that wait in front, if any, and is still on its way then. -/
theorem pull_of_shutdown (hf : s.failure = none) (hs : s.signals = .shutdown :: later)
    (retries : Nat) :
    let t := { s with signals := later }.close
    s.pull retries =
      (.shutDownFromOutside s.label :: (t.pull retries).1, (t.pull retries).2) := by
  intro t
  have ht : s.turn retries = ([.shutDownFromOutside s.label], .again retries, t) :=
    turn_of_signal hf hs retries
  rw [pull_of_again ht]
  rfl

theorem pull_of_interrupt (hf : s.failure = none) (hs : .interrupt ∈ s.signals) (retries : Nat) :
    let r := s.pull retries
    r.2.1 = .token .interrupt ∧ r.1.any Event.isRequest = false ∧ s.OnlyHeeds r.2.2 ∧
      r.2.2.queued + 1 = s.queued := by
  intro r
  -- Shutdowns may wait in front of it, and each of them takes a turn.
  induction hl : s.signals generalizing s with
  | nil => simp [hl] at hs
  | cons signal later ih =>
    cases signal with
    | interrupt =>
      have ht := turn_of_signal hf hl retries
      have hr : r = ([.interrupted s.label], .token .interrupt, { s with signals := later }) :=
        pull_of_done ht
      rw [hr]
      refine ⟨rfl, rfl, onlyHeeds_signals later s, ?_⟩
      simp [queued, hl]
    | shutdown =>
      let t := { s with signals := later }.close
      have hr : r = _ := pull_of_shutdown hf hl retries
      have hm : Signal.interrupt ∈ later := by simpa [hl] using hs
      obtain ⟨hk, he, ho, hq⟩ := ih (s := t) hf hm rfl
      have hqs : t.queued = s.queued := by simp [queued, hl, t, close, hangUp]
      rw [hr]
      refine ⟨hk, ?_, ((onlyHeeds_signals later s).trans (onlyHeeds_close _)).trans ho, ?_⟩
      · simpa [Event.isRequest] using he
      · exact hq.trans hqs

theorem pull_of_dead (hf : s.failure = none) (ha : s.alive = false) (hs : .interrupt ∉ s.signals)
    (retries : Nat) :
    let r := s.pull retries
    r.2.1 = .nothing ∧ r.1.any Event.isRequest = false ∧ s.OnlyHeeds r.2.2 ∧ r.2.2.queued = 0 := by
  intro r
  induction hl : s.signals generalizing s with
  | nil =>
    have hr : r = ([], .nothing, s) := pull_of_done (turn_of_dead hf hl ha retries)
    rw [hr]
    refine ⟨rfl, rfl, onlyHeeds_signals s.signals s, ?_⟩
    simp [queued, hl]
  | cons signal later ih =>
    cases signal with
    | interrupt => simp [hl] at hs
    | shutdown =>
      let t := { s with signals := later }.close
      have hr : r = _ := pull_of_shutdown hf hl retries
      have hm : Signal.interrupt ∉ later := by simpa [hl] using hs
      obtain ⟨hk, he, ho, hq⟩ := ih (s := t) hf rfl hm rfl
      rw [hr]
      refine ⟨hk, ?_, ((onlyHeeds_signals later s).trans (onlyHeeds_close _)).trans ho, hq⟩
      simpa [Event.isRequest] using he

theorem pull_of_failure {f : Failure} (hf : s.failure = some f) (retries : Nat) :
    s.pull retries = ([], .failed f, s) :=
  pull_of_done (turn_of_failure hf retries)

end Session

/-! ## Steps without a reader -/

theorem Task.noted_work (alive : Bool) (task : Task) (s : Scanner) :
    noted (task.work alive s).events = [] := by
  unfold Task.work
  repeat' split
  · rfl
  · rfl
  · rfl
  · rfl
  · exact noted_events _

theorem Task.noted_workAll (alive : Bool) (tasks : List Task) (s : Scanner) :
    noted (workAll alive tasks s).1 = [] := by
  induction tasks generalizing s with
  | nil => rfl
  | cons task tasks ih =>
    unfold workAll
    rw [noted_append, task.noted_work, ih]
    rfl

namespace Session

theorem settle_unasked (s : Session) :
    noted s.settle.1 = [] ∧ s.Unasked s.settle.2 ∧ s.settle.2.queued = s.queued ∧
      s.settle.2.failure = s.failure := by
  have hw := Task.noted_workAll s.alive s.abandoned s.scanner
  unfold settle
  simp only
  split
  · rw [noted_append, hw, Task.noted_work]
    exact ⟨rfl, ⟨rfl, rfl, id⟩, rfl, rfl⟩
  · exact ⟨hw, ⟨rfl, rfl, id⟩, rfl, rfl⟩

theorem feed_unasked (text : String) (s : Session) :
    s.Unasked (s.feed text).2 ∧ (s.feed text).2.queued = s.queued ∧
      (s.feed text).2.failure = s.failure := by
  unfold feed
  repeat' split
  all_goals exact ⟨⟨rfl, rfl, id⟩, rfl, rfl⟩

end Session

namespace Host

variable {α : Type} {g : Host α} {s : Session}

def Step.reads : Step α → Bool
  | .next | .lex | .drain => true
  | _ => false

def Step.signals : Step α → List Signal
  | .send signal => [signal]
  | _ => []

def Outcome.failure? : Outcome → Option Failure
  | .failed f => some f
  | _ => none

theorem count_interrupt_orEnd (p : Pull) :
    p.orEnd.tokens.count .interrupt = p.tokens.count .interrupt := by
  cases p <;> rfl

theorem perform_eq (hs : g.session = some s) (step : Step α) : g.perform step = act step s g := by
  unfold perform
  rw [hs]

theorem act_of_not_reads (hs : g.session = some s) {step : Step α} (hr : step.reads = false) :
    (act step s g).1.any Event.isRequest = false ∧ (act step s g).2.1.tokens = [] ∧
      ∀ t, (act step s g).2.2.session = some t →
        s.Unasked t ∧ t.queued = s.queued + step.signals.count .interrupt ∧
          t.failure = (act step s g).2.1.failure?.or s.failure := by
  have hsame : s.Unasked s ∧ s.queued = s.queued + 0 ∧ s.failure = s.failure :=
    ⟨⟨rfl, rfl, id⟩, rfl, rfl⟩
  cases step with
  | next => cases hr
  | lex => cases hr
  | drain => cases hr
  | feed text =>
    refine ⟨rfl, rfl, ?_⟩
    rintro t ⟨⟩
    exact s.feed_unasked text
  | settle =>
    obtain ⟨he, ha⟩ := s.settle_unasked
    refine ⟨(Session.any_of_noted he).1, rfl, ?_⟩
    rintro t ⟨⟩
    exact ha
  | probe line =>
    refine ⟨rfl, rfl, fun t ht => ?_⟩
    cases hs.symm.trans ht
    exact hsame
  | submit value =>
    refine ⟨rfl, rfl, fun t ht => ?_⟩
    cases hs.symm.trans ((session_submit value g).symm.trans ht)
    exact hsame
  | label =>
    refine ⟨rfl, rfl, fun t ht => ?_⟩
    cases hs.symm.trans ht
    exact hsame
  | send signal =>
    refine ⟨rfl, rfl, ?_⟩
    rintro t ⟨⟩
    cases signal with
    | interrupt =>
      refine ⟨⟨rfl, rfl, id⟩, ?_, rfl⟩
      simp [Session.queued, Session.send, Step.signals]
    | shutdown =>
      refine ⟨Session.unasked_of_dead rfl rfl rfl, ?_, rfl⟩
      simp [Session.queued, Session.send, Step.signals]
  | drop =>
    refine ⟨rfl, rfl, fun t ht => ?_⟩
    cases ht
  | activate | reset | discard =>
    refine ⟨rfl, rfl, ?_⟩
    rintro t ⟨⟩
    exact ⟨⟨rfl, rfl, id⟩, rfl, rfl⟩
  | shutdown =>
    refine ⟨rfl, rfl, ?_⟩
    rintro t ⟨⟩
    exact ⟨Session.unasked_of_dead rfl rfl rfl, rfl, rfl⟩
  | abort message =>
    refine ⟨rfl, rfl, ?_⟩
    rintro t ⟨⟩
    exact ⟨Session.unasked_of_dead rfl rfl rfl, rfl, rfl⟩

end Host

end ShellTokens
