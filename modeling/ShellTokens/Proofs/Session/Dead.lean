import ShellTokens.Proofs.Session.Reachable
import ShellTokens.Proofs.Session.Signals

/-!
# Sessions that are not alive

Nothing brings such a session back. Its reader gets the failure or the interrupts that wait, and no
more tokens, nobody asks for a line, and no input is taken.
-/

namespace ShellTokens

namespace Session

variable {s t : Session} {retries : Nat}

/-- What a reader of a session that is not alive comes back with. -/
def farewell (s : Session) : Pull :=
  match s.failure with
  | some f => .failed f
  | none => if .interrupt ∈ s.signals then .token .interrupt else .nothing

def ending (s : Session) : Pull :=
  match s.failure with
  | some f => .failed f
  | none => .nothing

theorem tokens_ending (s : Session) : s.ending.tokens = [] := by
  unfold ending
  split <;> rfl

theorem next_of_dead (ha : s.alive = false) :
    s.next.2.1 = s.farewell ∧ s.next.1.any Event.isRequest = false ∧ s.OnlyHeeds s.next.2.2 ∧
      s.farewell.tokens.count .interrupt + s.next.2.2.queued = s.queued := by
  unfold next farewell
  cases hf : s.failure with
  | some f =>
    rw [pull_of_failure hf]
    refine ⟨rfl, rfl, onlyHeeds_signals s.signals s, ?_⟩
    simp [Pull.tokens]
  | none =>
    by_cases hs : .interrupt ∈ s.signals
    · obtain ⟨hk, he, ho, hq⟩ := pull_of_interrupt hf hs 0
      simp only [hs, if_true]
      refine ⟨hk, he, ho, ?_⟩
      simp [Pull.tokens]
      omega
    · obtain ⟨hk, he, ho, hq⟩ := pull_of_dead hf ha hs 0
      simp only [hs, if_false]
      refine ⟨hk, he, ho, ?_⟩
      have hn : s.queued = 0 := List.count_eq_zero.2 hs
      simp [Pull.tokens]
      omega

theorem eq_interrupt_of_farewell {k : Token} (h : s.farewell = .token k) : k = .interrupt := by
  unfold farewell at h
  split at h
  · cases h
  · split at h
    · cases h
      rfl
    · cases h

theorem farewell_eq_ending (h : ∀ k, s.farewell ≠ .token k) : s.farewell = s.ending := by
  unfold farewell ending at *
  split
  · rfl
  · next hf =>
    simp only [hf] at h
    split
    · next hs => exact absurd (if_pos hs) (h .interrupt)
    · rfl

theorem drain_of_dead (ha : s.alive = false) :
    (∀ k ∈ s.drain.2.1, k.token = .interrupt) ∧ s.drain.2.2.1 = s.ending ∧
      s.drain.1.any Event.isRequest = false ∧ s.OnlyHeeds s.drain.2.2.2 ∧
      s.drain.2.1.length + s.drain.2.2.2.queued = s.queued := by
  induction s using drain_induction with
  | token s es k t hs ih =>
    obtain ⟨hp, he, ho, hq⟩ := next_of_dead ha
    simp only [hs] at hp he ho hq
    -- Only an interrupt lets the reader go on, and it does not wait any more then.
    obtain rfl := eq_interrupt_of_farewell hp.symm
    rw [← hp] at hq
    obtain ⟨hks, hl, hes, hos, hqs⟩ := ih (ho.dead ha)
    rw [drain_of_token hs]
    refine ⟨?_, ?_, ?_, ho.trans hos, ?_⟩
    · intro k hk
      rcases List.mem_cons.1 hk with rfl | hk
      · rfl
      · exact hks k hk
    · rw [hl]
      unfold ending
      rw [ho.failure]
    · simp [he, hes]
    · simp [Pull.tokens] at hq
      simp
      omega
  | last s es p t hs hn =>
    obtain ⟨hp, he, ho, hq⟩ := next_of_dead ha
    simp only [hs] at hp he ho hq
    have hnt : ∀ k, s.farewell ≠ .token k := fun k hk => hn k (hp.trans hk)
    rw [drain_of_end hs hn]
    refine ⟨nofun, hp.trans (farewell_eq_ending hnt), he, ho, ?_⟩
    rw [← hp] at hq
    cases p with
    | token k => exact absurd rfl (hn k)
    | _ => simpa [Pull.tokens] using hq

/-! ## The failure of a session -/

theorem failure_collect (retries : Nat) (s : Session) :
    (s.collect retries).2.failure = s.failure := by
  unfold collect
  split <;> rfl

theorem failure_ask (retries : Nat) (supplier : Supplier) (s : Session) :
    (s.ask retries supplier).2.2.failure = s.failure := by
  have hc : (s.called supplier).failure = s.failure := by
    obtain ⟨alive, h⟩ :=
      sendAll_eq supplier.ask.1.signals { s with supplier := some supplier.ask.2 }
    rw [called, h]
  cases ha : supplier.ask.1.answer with
  | none =>
    rw [ask_of_none ha]
    exact hc
  | some a =>
    rw [ask_of_some ha]
    cases a <;> exact hc

theorem failure_turn (retries : Nat) (s : Session) :
    (s.turn retries).2.2.failure = s.failure := by
  cases s.finds with
  | failure hf => rw [turn_of_failure hf]
  | @signal signal later hf hs =>
    rw [turn_of_signal hf hs]
    cases signal <;> rfl
  | dead hf hs ha => rw [turn_of_dead hf hs ha]
  | task hw hh =>
    rw [turn_of_handoff hw hh, await_eq]
    exact (failure_collect retries _).trans s.settle_unasked.2.2.2
  | supplier hw hh hp =>
    rw [turn_of_supplier hw hh hp]
    exact failure_ask retries _ s
  | nothing hw hh hp => rw [turn_of_no_supplier hw hh hp]

theorem failure_pull (retries : Nat) (s : Session) :
    (s.pull retries).2.2.failure = s.failure :=
  pull_keeps (P := fun t => t.failure = s.failure)
    (fun retries t ht => (failure_turn retries t).trans ht) retries rfl

theorem failure_drain (s : Session) : s.drain.2.2.2.failure = s.failure :=
  drain_keeps (P := fun t => t.failure = s.failure)
    (fun retries t ht => (failure_turn retries t).trans ht) rfl

theorem feed_of_dead (ha : s.alive = false) (text : String) :
    s.feed text = (some (s.failure.getD .shutDown), s) := by
  unfold feed
  rw [ha]
  split
  · next f hf => simp [hf]
  · next hf => simp [hf]

end Session

namespace Host

variable {α : Type} {g h : Host α} {s t : Session}

def Step.ends : Step α → Bool
  | .abort _ | .shutdown | .send .shutdown | .drop => true
  | _ => false

/-- What a host gets from a session that is not alive. Its lines stay as they are counted, nobody
asks its supplier, and an interrupt comes out of it only if it has waited. -/
structure Silent (g : Host α) (s : Session) : Prop where
  next : (g.perform .next).2.1 = .pulled s.farewell
  lex : (g.perform .lex).2.1 = .pulled s.farewell.orEnd
  drain : ∃ ks, (g.perform .drain).2.1 = .drained ks s.ending ∧ ∀ k ∈ ks, k.token = .interrupt
  feed : ∀ text, g.perform (.feed text) = ([], .fed (some (s.failure.getD .shutDown)), g)
  requests : ∀ step, (g.perform step).1.any Event.isRequest = false
  after : ∀ step t, (g.perform step).2.2.session = some t → s.Unasked t ∧
    (g.perform step).2.1.tokens.count .interrupt + t.queued =
      s.queued + step.signals.count .interrupt

theorem act_of_dead (hs : g.session = some s) (ha : s.alive = false) (step : Step α) :
    (act step s g).1.any Event.isRequest = false ∧
      ∀ t, (act step s g).2.2.session = some t → s.Unasked t ∧
        (act step s g).2.1.tokens.count .interrupt + t.queued =
          s.queued + step.signals.count .interrupt := by
  cases hr : step.reads with
  | false =>
    obtain ⟨he, hk, ht⟩ := act_of_not_reads hs hr
    refine ⟨he, fun t hst => ?_⟩
    obtain ⟨hat, hq, -⟩ := ht t hst
    refine ⟨hat, ?_⟩
    simp [hk, hq]
  | true =>
    obtain ⟨hp, he, ho, hq⟩ := Session.next_of_dead ha
    cases step with
    | next =>
      refine ⟨he, ?_⟩
      rintro t ⟨⟩
      refine ⟨ho.toUnasked, ?_⟩
      show s.next.2.1.tokens.count .interrupt + _ = _
      rw [hp]
      exact hq
    | lex =>
      refine ⟨he, ?_⟩
      rintro t ⟨⟩
      refine ⟨ho.toUnasked, ?_⟩
      show s.next.2.1.orEnd.tokens.count .interrupt + _ = _
      rw [hp, count_interrupt_orEnd]
      exact hq
    | drain =>
      obtain ⟨hk, hl, he, ho, hq⟩ := Session.drain_of_dead ha
      refine ⟨he, ?_⟩
      rintro t ⟨⟩
      refine ⟨ho.toUnasked, ?_⟩
      show (s.drain.2.1.map (·.token) ++ s.drain.2.2.1.tokens).count .interrupt + _ = _
      have hall : (s.drain.2.1.map (·.token)).count .interrupt = s.drain.2.1.length := by
        rw [List.count_eq_length.2, List.length_map]
        intro t ht
        obtain ⟨k, hm, rfl⟩ := List.mem_map.1 ht
        exact (hk k hm).symm
      rw [List.count_append, hall, hl, Session.tokens_ending]
      exact hq
    | _ => cases hr

theorem silent_of_dead (hs : g.session = some s) (ha : s.alive = false) : g.Silent s := by
  obtain ⟨hp, -⟩ := Session.next_of_dead ha
  obtain ⟨hk, hl, -⟩ := Session.drain_of_dead ha
  refine ⟨?_, ?_, ⟨s.drain.2.1, ?_, hk⟩, fun text => ?_, fun step => ?_, fun step => ?_⟩
  · rw [perform_eq hs, ← hp]
    rfl
  · rw [perform_eq hs, ← hp]
    rfl
  · rw [perform_eq hs, ← hl]
    rfl
  · rw [perform_eq hs]
    show ([], Outcome.fed (s.feed text).1, g.withSession (s.feed text).2) = _
    rw [Session.feed_of_dead ha, withSession, ← hs]
  · rw [perform_eq hs]
    exact (act_of_dead hs ha step).1
  · rw [perform_eq hs]
    exact (act_of_dead hs ha step).2

theorem isAlive_perform (hd : g.isAlive = false) (step : Step α) :
    (g.perform step).2.2.isAlive = false := by
  cases hs : g.session with
  | none =>
    unfold perform
    rw [hs]
    exact hd
  | some s =>
    have ha : s.alive = false := by simpa [isAlive, hs] using hd
    have hst := (silent_of_dead hs ha).after step
    cases ht : (g.perform step).2.2.session with
    | none => simp [isAlive, ht]
    | some t => simpa [isAlive, ht] using (hst t ht).1.dead ha

theorem isAlive_after (hd : h.isAlive = false) (steps : List (Step α)) :
    (h.after steps).isAlive = false := by
  induction steps generalizing h with
  | nil => exact hd
  | cons step later ih => exact ih (isAlive_perform hd step)

theorem isAlive_of_ends {step : Step α} (he : step.ends = true) (h : Host α) :
    (h.perform step).2.2.isAlive = false := by
  unfold perform
  cases hs : h.session with
  | none => simp [isAlive, hs]
  | some s =>
    cases step with
    | send signal =>
      cases signal with
      | interrupt => cases he
      | shutdown => rfl
    | abort message => rfl
    | shutdown => rfl
    | drop => rfl
    | _ => cases he

/-! ## What a host has been told -/

/-- The failure that came out last, or else the one before. -/
def lastFailure (outcomes : List Outcome) (before : Option Failure) : Option Failure :=
  outcomes.foldl (fun f outcome => outcome.failure?.or f) before

theorem failure_act (hs : g.session = some s) (step : Step α) :
    ∀ t, (act step s g).2.2.session = some t →
      t.failure = (act step s g).2.1.failure?.or s.failure := by
  cases hr : step.reads with
  | false =>
    intro t ht
    exact ((act_of_not_reads hs hr).2.2 t ht).2.2
  | true =>
    cases step with
    | next | lex =>
      rintro t ⟨⟩
      exact s.failure_pull 0
    | drain =>
      rintro t ⟨⟩
      exact s.failure_drain
    | _ => cases hr

theorem session_after (hs : h.session = none) (steps : List (Step α)) :
    (h.after steps).session = none := by
  induction steps generalizing h with
  | nil => exact hs
  | cons step later ih =>
    apply ih
    show (h.perform step).2.2.session = none
    unfold perform
    rw [hs]
    exact hs

theorem failure_after (hs : h.session = some s) (steps : List (Step α)) :
    ∀ t, (h.after steps).session = some t →
      t.failure = lastFailure (h.outcomes steps) s.failure := by
  induction steps generalizing h s with
  | nil =>
    intro t ht
    cases hs.symm.trans ht
    rfl
  | cons step later ih =>
    intro t (ht : ((h.perform step).2.2.after later).session = some t)
    cases hu : (h.perform step).2.2.session with
    | none =>
      -- The step has let go of the session, so there is none in the end.
      cases (session_after hu later).symm.trans ht
    | some u =>
      have hf := ih hu t ht
      rw [perform_eq hs] at hu hf
      rw [failure_act hs step u hu] at hf
      unfold outcomes
      rw [perform_eq hs]
      exact hf

/-- Once a session is not alive, whatever has ended it, it stays so, and whatever its host does, all
that comes out of it is its failure, or the interrupts that wait for a reader. Its failure is the
last one that its host has been given. -/
theorem silent_after (h : Host α) :
    (∀ step : Step α, step.ends = true → (h.perform step).2.2.isAlive = false) ∧
      (h.isAlive = false → ∀ steps, (h.after steps).isAlive = false ∧
        ∀ s, (h.after steps).session = some s → (h.after steps).Silent s) ∧
      ∀ steps s, (h.after steps).session = some s →
        s.failure = lastFailure (h.outcomes steps) (h.session.bind (·.failure)) := by
  refine ⟨fun step he => isAlive_of_ends he h, fun hd steps => ?_, ?_⟩
  · have ha := isAlive_after hd steps
    refine ⟨ha, fun s hs => silent_of_dead hs ?_⟩
    simpa [isAlive, hs] using ha
  · intro steps t ht
    cases hs : h.session with
    | none => cases (session_after hs steps).symm.trans ht
    | some s => exact failure_after hs steps t ht

theorem silent_with_held :
    let h : Host Nat := (start {} (some (.ofLines ["ls\n"])) none).after
      [.feed "a b", .settle, .send .interrupt]
    let ended := (h.perform (.send .shutdown)).2.2
    let later := [.settle, .discard, .lex, .abort "no", .reset]
    (Step.send .shutdown : Step Nat).ends = true ∧ ended.isAlive = false ∧
      ∃ s, (ended.after later).session = some s ∧ (ended.after later).Silent s ∧
        s.failure = some (.aborted "stdin" 0 "no") := by
  -- A token is still held when the session ends, and the supplier has another line. The parser
  -- gives up only after that.
  intro h ended later
  have hd : ended.isAlive = false := (silent_after h).1 (.send .shutdown) rfl
  have hsome : (ended.after later).session.isSome = true := by decide +kernel
  obtain ⟨s, hs⟩ := Option.isSome_iff_exists.1 hsome
  obtain ⟨-, hsilent, hfailure⟩ := silent_after ended
  refine ⟨rfl, hd, s, hs, (hsilent hd later).2 s hs, ?_⟩
  rw [hfailure later s hs]
  decide +kernel

end Host

end ShellTokens
