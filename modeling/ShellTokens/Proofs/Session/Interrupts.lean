import ShellTokens.Proofs.Scanner.Kinds
import ShellTokens.Proofs.Session.Reachable
import ShellTokens.Proofs.Session.Signals

/-!
# Interrupts come through

Each interrupt that is sent to a session, and each line that is cancelled, gives its reader one
interrupt. No other token is one.
-/

namespace ShellTokens

open Event (noted requests requests_append requests_request requests_of_any)

/-! ## What calls bring in -/

namespace Supplier

/-- The first calls. Behind those that are known nothing is sent, and nothing is cancelled. -/
def made (n : Nat) (p : Option Supplier) : List Call := ((p.map (·.calls)).getD []).take n

end Supplier

namespace Call

def isCancelled (c : Call) : Bool := c.answer = some .cancelled

/-- The interrupts that a reader gets out of calls. -/
def interrupts (calls : List Call) : Nat :=
  (calls.flatMap (·.signals)).count .interrupt + calls.countP isCancelled

theorem interrupts_append (calls more : List Call) :
    interrupts (calls ++ more) = interrupts calls + interrupts more := by
  simp [interrupts]
  omega

end Call

theorem Supplier.interrupts_made_one (p : Supplier) :
    Call.interrupts (made 1 (some p)) = Call.interrupts [p.ask.1] := by
  obtain ⟨calls⟩ := p
  cases calls <;> rfl

theorem Supplier.calls_ask (p : Supplier) : p.ask.2 = ⟨p.calls.drop 1⟩ := by
  obtain ⟨calls⟩ := p
  cases calls <;> rfl

namespace Session

variable {s t u : Session} {retries : Nat}

/-! ## The account of a run -/

/-- On the way from `s` to `t`, in which so many interrupts have been sent from outside, the reader
has got the interrupts that do not wait any more. -/
structure Balanced (s : Session) (sent : Nat) (es : List Event) (tokens : List Token)
    (t : Session) : Prop where
  supplier : t.supplier = none ∨
    t.supplier = s.supplier.map fun p => ⟨p.calls.drop (requests es)⟩
  unasked : s.supplier = none → requests es = 0
  balance : tokens.count .interrupt + t.queued =
    s.queued + sent + Call.interrupts (Supplier.made (requests es) s.supplier)

theorem Balanced.made_append {sent more : Nat} {es fs : List Event} {ks ls : List Token}
    (h : s.Balanced sent es ks t) (h' : t.Balanced more fs ls u) :
    Supplier.made (requests (es ++ fs)) s.supplier =
      Supplier.made (requests es) s.supplier ++ Supplier.made (requests fs) t.supplier := by
  rw [requests_append]
  rcases h.supplier with ht | ht
  · -- The supplier is not there any more, so nobody asks it.
    simp [ht, h'.unasked ht, Supplier.made]
  · cases hs : s.supplier with
    | none => simp [ht, hs, Supplier.made]
    | some p => simp [ht, hs, Supplier.made, List.take_add]

theorem Balanced.trans {sent more : Nat} {es fs : List Event} {ks ls : List Token}
    (h : s.Balanced sent es ks t) (h' : t.Balanced more fs ls u) :
    s.Balanced (sent + more) (es ++ fs) (ks ++ ls) u := by
  have hb := h.balance
  have hb' := h'.balance
  refine ⟨?_, ?_, ?_⟩
  · rcases h'.supplier with hu | hu
    · exact .inl hu
    · rcases h.supplier with ht | ht
      · exact .inl (by simp [hu, ht])
      · refine .inr ?_
        rw [hu, ht, requests_append]
        cases s.supplier <;> simp
  · intro hs
    have ht : t.supplier = none := by
      rcases h.supplier with ht | ht
      · exact ht
      · simp [ht, hs]
    rw [requests_append, h.unasked hs, h'.unasked ht]
  · rw [h.made_append h', Call.interrupts_append, List.count_append]
    omega

theorem balanced_of_unasked {sent : Nat} {es : List Event} {ks : List Token}
    (hp : t.supplier = s.supplier) (he : es.any Event.isRequest = false)
    (hq : ks.count .interrupt + t.queued = s.queued + sent) : s.Balanced sent es ks t := by
  have hn := requests_of_any he
  refine ⟨.inr ?_, fun _ => hn, ?_⟩
  · rw [hp, hn]
    cases s.supplier <;> rfl
  · simpa [hn, Supplier.made, Call.interrupts] using hq

/-! ## A turn -/

def Genuine (s : Session) : Prop := ∀ k, s.held? = some k → k.kind.isText = true

theorem genuine_of_not_held (h : s.held? = none) : s.Genuine := by
  intro k hk
  simp [h] at hk

theorem isText_of_scan {c d : Scanner} {e : Emission} (h : c.scan = (some e, d)) :
    e.toToken.kind.isText = true := by
  apply c.isText_emissions
  rw [Scanner.emissions_scan, h]
  exact List.mem_cons_self

theorem isText_of_work {alive : Bool} {task : Task} {c : Scanner}
    (h : ∀ k, task.offered = some k → k.kind.isText = true) :
    ∀ k, (task.work alive c).task.bind (·.offered) = some k → k.kind.isText = true := by
  intro k hk
  unfold Task.work at hk
  repeat' split at hk
  · cases hk
  · exact h k hk
  · cases hk
  · cases hk
  · next hs =>
    cases hk
    exact isText_of_scan hs

theorem Genuine.settle (h : s.Genuine) : s.settle.2.Genuine := by
  unfold Session.settle
  simp only
  split
  · next task rescan hh =>
    apply isText_of_work
    intro k hk
    apply h
    rw [held?, hh]
    exact hk
  · exact h

theorem Genuine.collect (h : s.Genuine) (retries : Nat) :
    (s.collect retries).2.Genuine ∧ (s.collect retries).1.tokens.count .interrupt = 0 ∧
      (s.collect retries).2.supplier = s.supplier ∧ (s.collect retries).2.queued = s.queued := by
  unfold Session.collect
  split
  · next k closed rescan hh =>
    have hk : k.kind.isText = true := h k (by rw [held?, hh]; rfl)
    have hne : k ≠ .interrupt := by
      rintro rfl
      cases hk
    refine ⟨genuine_of_not_held rfl, ?_, rfl, rfl⟩
    simp [Turn.tokens, Pull.tokens, hne]
  · exact ⟨genuine_of_not_held rfl, rfl, rfl, rfl⟩
  · exact ⟨genuine_of_not_held rfl, rfl, rfl, rfl⟩

theorem Genuine.await (h : s.Genuine) (retries : Nat) :
    (s.await retries).2.2.Genuine ∧
      s.Balanced 0 (s.await retries).1 (s.await retries).2.1.tokens (s.await retries).2.2 := by
  obtain ⟨he, ha, hq, -⟩ := s.settle_unasked
  obtain ⟨hg, hk, hp, hqc⟩ := h.settle.collect retries
  rw [await_eq]
  refine ⟨hg, balanced_of_unasked (hp.trans ha.supplier) (any_of_noted he).1 ?_⟩
  simp only
  omega

theorem answered_balanced (hh : s.handoff = none) (retries : Nat) (a : Answer) :
    let r := s.answered retries a
    r.1.any Event.isRequest = false ∧ r.2.2.held? = none ∧
      (r.2.2.supplier = none ∨ r.2.2.supplier = s.supplier) ∧
      r.2.1.tokens.count .interrupt + r.2.2.queued =
        s.queued + if a = .cancelled then 1 else 0 := by
  have hn := held?_of_handoff hh
  cases a with
  | line text => exact ⟨rfl, rfl, .inr rfl, by simp [answered, Turn.tokens]; rfl⟩
  | retry => exact ⟨rfl, hn, .inr rfl, by simp [answered, Turn.tokens]⟩
  | cancelled =>
    refine ⟨rfl, hn, .inr rfl, ?_⟩
    simp [answered, Turn.tokens, Pull.tokens]
    omega
  | eof rest => exact ⟨rfl, rfl, .inl rfl, by simp [answered, Turn.tokens]; rfl⟩
  | fatal rest reason =>
    refine ⟨rfl, rfl, .inl rfl, ?_⟩
    have hne : Token.error reason ≠ .interrupt := by simp [Token.error, Token.interrupt]
    simp [answered, Turn.tokens, Pull.tokens, hne]
    rfl

theorem balanced_of_ask {supplier : Supplier} {es : List Event} {ks : List Token}
    (hs : s.supplier = some supplier) (he : requests es = 1)
    (ht : t.supplier = none ∨ t.supplier = some supplier.ask.2)
    (hq : ks.count .interrupt + t.queued = s.queued + Call.interrupts [supplier.ask.1]) :
    s.Balanced 0 es ks t := by
  refine ⟨?_, ?_, ?_⟩
  · rw [hs, he]
    simpa [supplier.calls_ask] using ht
  · simp [hs]
  · rw [he, hs, supplier.interrupts_made_one]
    exact hq

theorem ask_balanced {supplier : Supplier} (hh : s.handoff = none)
    (hp : s.supplier = some supplier) (retries : Nat) :
    (s.ask retries supplier).2.2.Genuine ∧
      s.Balanced 0 (s.ask retries supplier).1 (s.ask retries supplier).2.1.tokens
        (s.ask retries supplier).2.2 := by
  have hhc := (handoff_called supplier s).trans hh
  obtain ⟨alive, hc⟩ :=
    sendAll_eq supplier.ask.1.signals { s with supplier := some supplier.ask.2 }
  have hsup : (s.called supplier).supplier = some supplier.ask.2 := by rw [called, hc]
  have hq : (s.called supplier).queued = s.queued + supplier.ask.1.signals.count .interrupt := by
    simp [called, hc, queued]
  cases ha : supplier.ask.1.answer with
  | some a =>
    obtain ⟨he, hg, hpa, hqa⟩ := answered_balanced hhc retries a
    rw [ask_of_some ha]
    refine ⟨genuine_of_not_held hg, balanced_of_ask hp ?_ ?_ ?_⟩
    · rw [requests_request, requests_of_any he]
    · rwa [hsup] at hpa
    · rw [hqa, hq]
      simp [Call.interrupts, Call.isCancelled, ha, List.countP_cons, Nat.add_assoc]
  | none =>
    rw [ask_of_none ha]
    refine ⟨genuine_of_not_held (held?_of_handoff hhc), balanced_of_ask hp rfl (.inr hsup) ?_⟩
    have hk : (if (s.called supplier).signals.isEmpty then Turn.done .blocked
        else .again retries).tokens = [] := by
      split <;> rfl
    rw [hk, hq]
    simp [Call.interrupts, Call.isCancelled, ha]

theorem turn_balanced (h : s.Genuine) (retries : Nat) :
    (s.turn retries).2.2.Genuine ∧
      s.Balanced 0 (s.turn retries).1 (s.turn retries).2.1.tokens (s.turn retries).2.2 := by
  have hstay : s.Balanced 0 [] [] s := balanced_of_unasked rfl rfl (Nat.zero_add _)
  cases s.finds with
  | failure hf =>
    rw [turn_of_failure hf]
    exact ⟨h, hstay⟩
  | @signal signal later hf hs =>
    rw [turn_of_signal hf hs]
    cases signal with
    | interrupt =>
      refine ⟨h, balanced_of_unasked rfl rfl ?_⟩
      simp [heed, Turn.tokens, Pull.tokens, queued, hs]
      omega
    | shutdown =>
      refine ⟨genuine_of_not_held rfl, balanced_of_unasked rfl rfl ?_⟩
      simp [heed, Turn.tokens, queued, hs, close, hangUp]
  | dead hf hs ha =>
    rw [turn_of_dead hf hs ha]
    exact ⟨h, hstay⟩
  | task hw hh =>
    rw [turn_of_handoff hw hh]
    exact h.await retries
  | supplier hw hh hp =>
    rw [turn_of_supplier hw hh hp]
    exact ask_balanced hh hp retries
  | nothing hw hh hp =>
    rw [turn_of_no_supplier hw hh hp]
    exact ⟨h, hstay⟩

/-! ## A run -/

theorem pull_balanced (h : s.Genuine) (retries : Nat) :
    (s.pull retries).2.2.Genuine ∧
      s.Balanced 0 (s.pull retries).1 (s.pull retries).2.1.tokens (s.pull retries).2.2 := by
  induction retries, s using pull_induction with
  | done retries s es p t hs =>
    have ht := turn_balanced h retries
    rw [hs] at ht
    rw [pull_of_done hs]
    exact ht
  | again retries s es n t hs ih =>
    have ht := turn_balanced h retries
    rw [hs] at ht
    obtain ⟨hg, hb⟩ := ih ht.1
    rw [pull_of_again hs]
    exact ⟨hg, ht.2.trans hb⟩

theorem drain_balanced (h : s.Genuine) :
    s.drain.2.2.2.Genuine ∧
      s.Balanced 0 s.drain.1 (s.drain.2.1.map (·.token) ++ s.drain.2.2.1.tokens)
        s.drain.2.2.2 := by
  induction s using drain_induction with
  | token s es k t hs ih =>
    have hp := pull_balanced h 0
    rw [← next, hs] at hp
    obtain ⟨hg, hb⟩ := ih hp.1
    rw [drain_of_token hs]
    exact ⟨hg, hp.2.trans hb⟩
  | last s es p t hs hn =>
    have hp := pull_balanced h 0
    rw [← next, hs] at hp
    rw [drain_of_end hs hn]
    exact hp

end Session

namespace Host

variable {α : Type} {g : Host α} {s : Session}

/-- What is noted down while a host takes its steps. -/
def log : List (Step α) → Host α → List Event
  | [], _ => []
  | step :: later, h => (h.perform step).1 ++ log later (h.perform step).2.2

theorem genuine_act (hs : g.session = some s) (hg : s.Genuine) {step : Step α}
    (hr : step.reads = false) (hd : step ≠ .drop) :
    ∃ t, (act step s g).2.2.session = some t ∧ t.Genuine := by
  cases step with
  | next => cases hr
  | lex => cases hr
  | drain => cases hr
  | drop => exact absurd rfl hd
  | settle => exact ⟨_, rfl, hg.settle⟩
  | feed text =>
    refine ⟨_, rfl, ?_⟩
    unfold Session.feed
    repeat' split
    · exact hg
    · exact hg
    · next o ho =>
      intro k hk
      apply hg
      rw [Session.held?, ho]
      exact hk
    · exact Session.genuine_of_not_held rfl
  | probe line => exact ⟨s, hs, hg⟩
  | label => exact ⟨s, hs, hg⟩
  | submit value => exact ⟨s, (session_submit value g).trans hs, hg⟩
  | send signal =>
    refine ⟨_, rfl, ?_⟩
    cases signal with
    | interrupt => exact hg
    | shutdown => exact hg
  | activate => exact ⟨_, rfl, hg⟩
  | reset => exact ⟨_, rfl, hg⟩
  | discard => exact ⟨_, rfl, Session.genuine_of_not_held rfl⟩
  | shutdown => exact ⟨_, rfl, Session.genuine_of_not_held rfl⟩
  | abort message => exact ⟨_, rfl, Session.genuine_of_not_held rfl⟩

theorem act_balanced (hs : g.session = some s) (hg : s.Genuine) {step : Step α}
    (hd : step ≠ .drop) :
    ∃ t, (act step s g).2.2.session = some t ∧ t.Genuine ∧
      s.Balanced (step.signals.count .interrupt) (act step s g).1 (act step s g).2.1.tokens t := by
  cases hr : step.reads with
  | false =>
    obtain ⟨he, hk, ha⟩ := act_of_not_reads hs hr
    obtain ⟨t, ht, hgt⟩ := genuine_act hs hg hr hd
    obtain ⟨hu, hq, -⟩ := ha t ht
    refine ⟨t, ht, hgt, Session.balanced_of_unasked hu.supplier he ?_⟩
    simp [hk, hq]
  | true =>
    have hp := Session.pull_balanced hg 0
    cases step with
    | next => exact ⟨_, rfl, hp⟩
    | lex =>
      obtain ⟨hgt, hb⟩ := hp
      refine ⟨_, rfl, hgt, hb.supplier, hb.unasked, ?_⟩
      show s.next.2.1.orEnd.tokens.count .interrupt + _ = _
      rw [count_interrupt_orEnd]
      exact hb.balance
    | drain => exact ⟨_, rfl, Session.drain_balanced hg⟩
    | _ => cases hr

theorem after_balanced (hs : g.session = some s) (hg : s.Genuine) {steps : List (Step α)}
    (hd : .drop ∉ steps) :
    ∃ t, (g.after steps).session = some t ∧
      s.Balanced ((steps.flatMap Step.signals).count .interrupt) (g.log steps)
        ((g.outcomes steps).flatMap Outcome.tokens) t := by
  induction steps generalizing g s with
  | nil => exact ⟨s, hs, Session.balanced_of_unasked rfl rfl (Nat.zero_add _)⟩
  | cons step later ih =>
    rw [List.mem_cons, not_or] at hd
    obtain ⟨t, ht, hgt, hb⟩ := act_balanced hs hg (Ne.symm hd.1)
    -- The account of one step, and then that of the others.
    rw [← perform_eq hs] at ht hb
    obtain ⟨u, hu, hbu⟩ := ih ht hgt hd.2
    refine ⟨u, hu, ?_⟩
    rw [List.flatMap_cons, List.count_append]
    exact hb.trans hbu

/-- Each interrupt that has been sent, from outside or during a call, and each call that has been
cancelled comes out as one interrupt or still waits, and nothing else comes out as one. While one
waits, a reader gets it before anything else. -/
theorem interrupts_delivered (o : Options) (supplier : Option Supplier)
    (accepts : Option (List α → Bool)) (steps : List (Step α)) (hd : .drop ∉ steps) :
    let h := start o supplier accepts
    let calls := Supplier.made (requests (h.log steps)) supplier
    (∃ s, (h.after steps).session = some s ∧
      ((h.outcomes steps).flatMap Outcome.tokens).count .interrupt + s.queued =
        (steps.flatMap Step.signals).count .interrupt +
          ((calls.flatMap (·.signals)).count .interrupt + calls.countP Call.isCancelled)) ∧
    ∀ s : Session, s.failure = none → .interrupt ∈ s.signals →
      s.next.2.1 = .token .interrupt ∧ s.next.1.any Event.isRequest = false ∧
        s.OnlyHeeds s.next.2.2 ∧ s.next.2.2.queued + 1 = s.queued := by
  intro h calls
  refine ⟨?_, fun s hf hs => Session.pull_of_interrupt hf hs 0⟩
  have hg : (Session.start o supplier).Genuine := Session.genuine_of_not_held rfl
  obtain ⟨s, hs, hb⟩ := after_balanced (g := h) rfl hg hd
  refine ⟨s, hs, ?_⟩
  have hz : (Session.start o supplier).queued = 0 := rfl
  rw [hb.balance, hz, Nat.zero_add]
  rfl

theorem delivered_in_calls :
    let supplier : Supplier := ⟨[⟨[.interrupt], some (.line "a\n")⟩, ⟨[], some .cancelled⟩,
      ⟨[.interrupt, .interrupt], none⟩, ⟨[.shutdown, .interrupt], some (.fatal "b" "gone")⟩]⟩
    let steps : List (Step Nat) :=
      [.feed "x", .settle, .send .interrupt, .next, .drain, .abort "no"]
    let h := start {} (some supplier) none
    let s := ((Session.start {} (some supplier)).send .shutdown).send .interrupt
    .drop ∉ steps ∧
      (∃ t, (h.after steps).session = some t ∧
        ((h.outcomes steps).flatMap Outcome.tokens).count .interrupt + t.queued = 6) ∧
      s.failure = none ∧ .interrupt ∈ s.signals ∧ s.next.2.1 = .token .interrupt ∧
      s.OnlyHeeds s.next.2.2 := by
  -- One interrupt is sent from outside and four come in calls, one line is cancelled, and in the
  -- end an interrupt waits behind a shutdown.
  intro supplier steps h s
  have hd : .drop ∉ steps := by simp [steps]
  have hi : .interrupt ∈ s.signals := by decide
  obtain ⟨⟨t, ht, hb⟩, hfirst⟩ := interrupts_delivered {} (some supplier) none steps hd
  obtain ⟨hk, -, ho, -⟩ := hfirst s rfl hi
  refine ⟨hd, ⟨t, ht, hb.trans ?_⟩, rfl, hi, hk, ho⟩
  decide +kernel

end Host

end ShellTokens
