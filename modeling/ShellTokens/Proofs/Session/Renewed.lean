import ShellTokens.Proofs.Session.Reachable
import ShellTokens.Proofs.Session.Settle

/-!
# A session that starts over

Once what a session has not handed out has been discarded and it has been reset, it goes on as a new
one does. The tasks that its reader has turned away from do nothing but end. The other way round,
the first words take note of the token of a task that has its turn in between.
-/

namespace ShellTokens

namespace Session

variable {s t : Session} {tasks : List Task} {β : Type}

/-- Other tasks have been turned away from. -/
def leaving (tasks : List Task) (s : Session) : Session := { s with abandoned := tasks }

def AllClosed (tasks : List Task) : Prop := ∀ task ∈ tasks, task.closed = true

/-- The two differ at most in the tasks that their readers have turned away from. -/
def UpToLeft (s t : Session) : Prop :=
  AllClosed s.abandoned ∧ ∃ tasks, AllClosed tasks ∧ t = s.leaving tasks

/-- What neither looks at these tasks nor changes them does the same to both. -/
theorem UpToLeft.map (h : s.UpToLeft t) (f : Session → Session)
    (hf : ∀ (tasks : List Task) (s : Session), f (s.leaving tasks) = (f s).leaving tasks)
    (ha : ∀ s : Session, (f s).abandoned = s.abandoned) : (f s).UpToLeft (f t) := by
  obtain ⟨hs, tasks, ht, rfl⟩ := h
  exact ⟨(ha s).symm ▸ hs, tasks, ht, hf tasks s⟩

theorem upToLeft_refl (h : AllClosed s.abandoned) : s.UpToLeft s := ⟨h, s.abandoned, h, rfl⟩

structure Same (a b : List Event × β × Session) : Prop where
  events : a.1 = b.1
  result : a.2.1 = b.2.1
  session : a.2.2.UpToLeft b.2.2

/-! ## One operation at a time -/

theorem settle_leaving (hs : AllClosed s.abandoned) (ht : AllClosed tasks) :
    (s.leaving tasks).settle = s.settle := by
  -- A task that is closed ends at its next turn and leaves the scanner as it is.
  unfold settle leaving
  rw [Task.workAll_closed hs, Task.workAll_closed ht]

theorem allClosed_settle (hs : AllClosed s.abandoned) : AllClosed s.settle.2.abandoned := by
  unfold settle
  rw [Task.workAll_closed hs]
  simp only
  split <;> exact nofun

theorem allClosed_collect (hs : AllClosed s.abandoned) (retries : Nat) :
    AllClosed (s.collect retries).2.abandoned := by
  unfold collect
  split <;> exact hs

theorem await_leaving (hs : AllClosed s.abandoned) (ht : AllClosed tasks) (retries : Nat) :
    Same (s.await retries) ((s.leaving tasks).await retries) := by
  rw [await_eq, await_eq, settle_leaving hs ht]
  exact ⟨rfl, rfl, upToLeft_refl (allClosed_collect (allClosed_settle hs) retries)⟩

theorem hangUp_leaving (hs : AllClosed s.abandoned) (ht : AllClosed tasks) :
    s.hangUp.UpToLeft (s.leaving tasks).hangUp := by
  have happ {left : List Task} (h : AllClosed left) :
      AllClosed (left ++ (s.handoff.bind (·.task)).toList.map ({ · with closed := true })) := by
    intro task hm
    simp only [List.mem_append, List.mem_map] at hm
    rcases hm with hm | ⟨task, -, rfl⟩
    · exact h task hm
    · rfl
  exact ⟨happ hs, _, happ ht, rfl⟩

theorem sendAll_leaving (signals : List Signal) (s : Session) :
    (s.leaving tasks).sendAll signals = (s.sendAll signals).leaving tasks := by
  induction signals generalizing s with
  | nil => rfl
  | cons signal signals ih =>
    have h : (s.leaving tasks).send signal = (s.send signal).leaving tasks := by
      cases signal <;> rfl
    simp only [sendAll, List.foldl_cons, h] at ih ⊢
    exact ih _

theorem abandoned_sendAll (signals : List Signal) (s : Session) :
    (s.sendAll signals).abandoned = s.abandoned := by
  obtain ⟨alive, h⟩ := sendAll_eq signals s
  rw [h]

theorem answered_leaving (hs : AllClosed s.abandoned) (ht : AllClosed tasks) (retries : Nat)
    (a : Answer) : Same (s.answered retries a) ((s.leaving tasks).answered retries a) := by
  cases a <;> exact ⟨rfl, rfl, hs, tasks, ht, rfl⟩

theorem ask_leaving (hs : AllClosed s.abandoned) (ht : AllClosed tasks) (retries : Nat)
    (supplier : Supplier) :
    Same (s.ask retries supplier) ((s.leaving tasks).ask retries supplier) := by
  have hc : (s.leaving tasks).called supplier = (s.called supplier).leaving tasks :=
    sendAll_leaving supplier.ask.1.signals { s with supplier := some supplier.ask.2 }
  have hsc : AllClosed (s.called supplier).abandoned := by
    rw [called, abandoned_sendAll]
    exact hs
  cases ha : supplier.ask.1.answer with
  | some a =>
    rw [ask_of_some ha, ask_of_some ha, hc]
    obtain ⟨he, hr, hst⟩ := answered_leaving hsc ht retries a
    exact ⟨congrArg (List.cons _) he, hr, hst⟩
  | none =>
    rw [ask_of_none ha, ask_of_none ha, hc]
    exact ⟨rfl, rfl, hsc, tasks, ht, rfl⟩

theorem heed_leaving (hs : AllClosed s.abandoned) (ht : AllClosed tasks) (retries : Nat)
    (signal : Signal) : Same (s.heed retries signal) ((s.leaving tasks).heed retries signal) := by
  cases signal with
  | interrupt => exact ⟨rfl, rfl, hs, tasks, ht, rfl⟩
  | shutdown =>
    obtain ⟨hl, left, hr, hh⟩ := hangUp_leaving hs ht
    refine ⟨rfl, rfl, hl, left, hr, ?_⟩
    show { (s.leaving tasks).hangUp with alive := false } = _
    rw [hh]
    rfl

/-! ## Reading -/

theorem UpToLeft.turn (h : s.UpToLeft t) (retries : Nat) :
    Same (s.turn retries) (t.turn retries) := by
  obtain ⟨hs, tasks, ht, rfl⟩ := h
  have hstay : s.UpToLeft (s.leaving tasks) := ⟨hs, tasks, ht, rfl⟩
  have hleft (hw : s.Waits) : (s.leaving tasks).Waits := ⟨hw.failure, hw.signals, hw.alive⟩
  cases s.finds with
  | failure hf =>
    rw [turn_of_failure hf, turn_of_failure (s := s.leaving tasks) hf]
    exact ⟨rfl, rfl, hstay⟩
  | @signal signal later hf hsig =>
    rw [turn_of_signal hf hsig, turn_of_signal (s := s.leaving tasks) hf hsig]
    exact heed_leaving (s := { s with signals := later }) hs ht retries signal
  | dead hf hsig ha =>
    rw [turn_of_dead hf hsig ha, turn_of_dead (s := s.leaving tasks) hf hsig ha]
    exact ⟨rfl, rfl, hstay⟩
  | task hw hh =>
    rw [turn_of_handoff hw hh, turn_of_handoff (hleft hw) hh]
    exact await_leaving hs ht retries
  | @supplier supplier hw hh hp =>
    rw [turn_of_supplier hw hh hp, turn_of_supplier (hleft hw) hh hp]
    exact ask_leaving hs ht retries supplier
  | nothing hw hh hp =>
    rw [turn_of_no_supplier hw hh hp, turn_of_no_supplier (hleft hw) hh hp]
    exact ⟨rfl, rfl, hstay⟩

theorem UpToLeft.pull (h : s.UpToLeft t) (retries : Nat) :
    Same (s.pull retries) (t.pull retries) := by
  induction retries, s using pull_induction generalizing t with
  | done retries s es p u hs =>
    obtain ⟨he, hr, ht⟩ := h.turn retries
    rw [hs] at he hr ht
    have hturn : t.turn retries = (es, .done p, (t.turn retries).2.2) :=
      Prod.ext he.symm (Prod.ext hr.symm rfl)
    rw [pull_of_done hs, pull_of_done hturn]
    exact ⟨rfl, rfl, ht⟩
  | again retries s es n u hs ih =>
    obtain ⟨he, hr, ht⟩ := h.turn retries
    rw [hs] at he hr ht
    have hturn : t.turn retries = (es, .again n, (t.turn retries).2.2) :=
      Prod.ext he.symm (Prod.ext hr.symm rfl)
    rw [pull_of_again hs, pull_of_again hturn]
    obtain ⟨he', hr', ht'⟩ := ih ht
    exact ⟨congrArg (es ++ ·) he', hr', ht'⟩

theorem UpToLeft.firstWord? (h : s.UpToLeft t) : s.firstWord? = t.firstWord? := by
  obtain ⟨-, tasks, -, rfl⟩ := h
  rfl

theorem UpToLeft.label (h : s.UpToLeft t) : s.label = t.label := by
  obtain ⟨-, tasks, -, rfl⟩ := h
  rfl

theorem UpToLeft.alive (h : s.UpToLeft t) : s.alive = t.alive := by
  obtain ⟨-, tasks, -, rfl⟩ := h
  rfl

theorem UpToLeft.lines (h : s.UpToLeft t) : s.lines = t.lines := by
  obtain ⟨-, tasks, -, rfl⟩ := h
  rfl

theorem UpToLeft.drain (h : s.UpToLeft t) :
    s.drain.1 = t.drain.1 ∧ s.drain.2.1 = t.drain.2.1 ∧ s.drain.2.2.1 = t.drain.2.2.1 ∧
      s.drain.2.2.2.UpToLeft t.drain.2.2.2 := by
  induction s using drain_induction generalizing t with
  | token s es k u hs ih =>
    obtain ⟨he, hr, ht⟩ := h.pull 0
    rw [← next, ← next, hs] at he hr ht
    have hnext : t.next = (es, .token k, t.next.2.2) := Prod.ext he.symm (Prod.ext hr.symm rfl)
    obtain ⟨he', hk', hl', ht'⟩ := ih ht
    rw [drain_of_token hs, drain_of_token hnext]
    refine ⟨congrArg (es ++ ·) he', ?_, hl', ht'⟩
    rw [ht.firstWord?, ht.lines]
    exact congrArg (List.cons _) hk'
  | last s es p u hs hn =>
    obtain ⟨he, hr, ht⟩ := h.pull 0
    rw [← next, ← next, hs] at he hr ht
    have hnext : t.next = (es, p, t.next.2.2) := Prod.ext he.symm (Prod.ext hr.symm rfl)
    rw [drain_of_end hs hn, drain_of_end hnext hn]
    exact ⟨rfl, rfl, rfl, ht⟩

/-! ## What a host does -/

theorem feed_leaving (text : String) (s : Session) :
    (s.leaving tasks).feed text = ((s.feed text).1, (s.feed text).2.leaving tasks) := by
  unfold feed leaving
  simp only
  repeat' split
  all_goals rfl

theorem abandoned_feed (text : String) (s : Session) :
    (s.feed text).2.abandoned = s.abandoned := by
  unfold feed
  repeat' split
  all_goals rfl

theorem UpToLeft.feed (h : s.UpToLeft t) (text : String) :
    (s.feed text).1 = (t.feed text).1 ∧ (s.feed text).2.UpToLeft (t.feed text).2 := by
  obtain ⟨hs, tasks, ht, rfl⟩ := h
  rw [feed_leaving]
  exact ⟨rfl, (abandoned_feed text s).symm ▸ hs, tasks, ht, rfl⟩

theorem UpToLeft.settle (h : s.UpToLeft t) :
    s.settle.1 = t.settle.1 ∧ s.settle.2.UpToLeft t.settle.2 := by
  obtain ⟨hs, tasks, ht, rfl⟩ := h
  rw [settle_leaving hs ht]
  exact ⟨rfl, upToLeft_refl (allClosed_settle hs)⟩

theorem UpToLeft.send (h : s.UpToLeft t) (signal : Signal) :
    (s.send signal).UpToLeft (t.send signal) := by
  obtain ⟨hs, tasks, ht, rfl⟩ := h
  cases signal <;> exact ⟨hs, tasks, ht, rfl⟩

theorem UpToLeft.hangUp (h : s.UpToLeft t) : s.hangUp.UpToLeft t.hangUp := by
  obtain ⟨hs, tasks, ht, rfl⟩ := h
  exact hangUp_leaving hs ht

theorem UpToLeft.close (h : s.UpToLeft t) : s.close.UpToLeft t.close :=
  h.hangUp.map ({ · with alive := false }) (fun _ _ => rfl) fun _ => rfl

theorem UpToLeft.discard (h : s.UpToLeft t) : s.discard.2.UpToLeft t.discard.2 :=
  h.hangUp.map (fun s => { s with scanner := s.scanner.discard }) (fun _ _ => rfl) fun _ => rfl

theorem UpToLeft.abort (h : s.UpToLeft t) (message : String) :
    (s.abort message).1 = (t.abort message).1 ∧
      (s.abort message).2.2.UpToLeft (t.abort message).2.2 := by
  have hf : (s.abort message).1 = (t.abort message).1 := by
    unfold Session.abort
    rw [h.label, h.lines]
  refine ⟨hf, ?_⟩
  have hm := h.close.map (fun u => { u.reset with failure := some (s.abort message).1 })
    (fun _ _ => rfl) fun _ => rfl
  -- The failure is a part of the new session, and it is the same for both.
  show UpToLeft _ { t.close.reset with failure := some (t.abort message).1 }
  rw [← hf]
  exact hm

theorem UpToLeft.words (h : s.UpToLeft t) (f : FirstWords → FirstWords) :
    UpToLeft { s with scanner := { s.scanner with words := f s.scanner.words } }
      { t with scanner := { t.scanner with words := f t.scanner.words } } :=
  h.map (fun s => { s with scanner := { s.scanner with words := f s.scanner.words } })
    (fun _ _ => rfl) fun _ => rfl

end Session

namespace Host

variable {α : Type} {g h : Host α} {s t : Session}

/-- All that a host can tell of a step, and of its session then. -/
structure Shown where
  events : List Event
  outcome : Outcome
  alive : Bool
  lines : Option LineCount
  word : Option (Option String)
  deriving DecidableEq

def shows : List (Step α) → Host α → List Shown
  | [], _ => []
  | step :: later, h =>
    let r := h.perform step
    { events := r.1
      outcome := r.2.1
      alive := r.2.2.isAlive
      lines := r.2.2.session.map (·.lines)
      word := r.2.2.session.map (·.firstWord?) } :: shows later r.2.2

structure UpToLeft (g h : Host α) : Prop where
  accepts : g.accepts = h.accepts
  received : g.received = h.received
  session : g.session = none ∧ h.session = none ∨
    ∃ s t, g.session = some s ∧ h.session = some t ∧ s.UpToLeft t

theorem UpToLeft.submit (hg : g.UpToLeft h) (value : α) :
    (g.submit value).1 = (h.submit value).1 ∧ (g.submit value).2.UpToLeft (h.submit value).2 := by
  obtain ⟨gs, accepts, received⟩ := g
  obtain ⟨hs, accepts', received'⟩ := h
  obtain ⟨ha, hr, hs⟩ := hg
  simp only at ha hr
  subst ha hr
  cases accepts with
  | none => exact ⟨rfl, rfl, rfl, hs⟩
  | some accepts => exact ⟨rfl, rfl, rfl, hs⟩

theorem UpToLeft.withSession (hg : g.UpToLeft h) (hs : s.UpToLeft t) :
    (g.withSession s).UpToLeft (h.withSession t) :=
  ⟨hg.accepts, hg.received, .inr ⟨s, t, rfl, rfl, hs⟩⟩

theorem UpToLeft.act (hg : g.UpToLeft h) (hs : s.UpToLeft t) (step : Step α) :
    (act step s g).1 = (act step t h).1 ∧ (act step s g).2.1 = (act step t h).2.1 ∧
      (act step s g).2.2.UpToLeft (act step t h).2.2 := by
  cases step with
  | next =>
    obtain ⟨he, hr, ht⟩ := hs.pull 0
    exact ⟨he, congrArg Outcome.pulled hr, hg.withSession ht⟩
  | lex =>
    obtain ⟨he, hr, ht⟩ := hs.pull 0
    exact ⟨he, congrArg (fun p : Pull => Outcome.pulled p.orEnd) hr, hg.withSession ht⟩
  | drain =>
    obtain ⟨he, hk, hl, ht⟩ := hs.drain
    refine ⟨he, ?_, hg.withSession ht⟩
    show Outcome.drained s.drain.2.1 s.drain.2.2.1 = _
    rw [hk, hl]
    rfl
  | feed text =>
    obtain ⟨hr, ht⟩ := hs.feed text
    exact ⟨rfl, congrArg Outcome.fed hr, hg.withSession ht⟩
  | settle =>
    obtain ⟨he, ht⟩ := hs.settle
    exact ⟨he, rfl, hg.withSession ht⟩
  | submit value =>
    obtain ⟨hr, hgt⟩ := hg.submit value
    exact ⟨rfl, congrArg Outcome.accepted hr, hgt⟩
  | send signal => exact ⟨rfl, rfl, hg.withSession (hs.send signal)⟩
  | drop => exact ⟨rfl, rfl, hg.accepts, hg.received, .inl ⟨rfl, rfl⟩⟩
  | probe line =>
    refine ⟨rfl, ?_, hg⟩
    obtain ⟨-, tasks, -, rfl⟩ := hs
    rfl
  | label =>
    refine ⟨rfl, ?_, hg⟩
    obtain ⟨-, tasks, -, rfl⟩ := hs
    rfl
  | activate => exact ⟨rfl, rfl, hg.withSession (hs.words fun _ => .fresh)⟩
  | reset => exact ⟨rfl, rfl, hg.withSession (hs.words FirstWords.reset)⟩
  | discard =>
    refine ⟨?_, rfl, hg.withSession hs.discard⟩
    exact congrArg (fun l => [Event.discarded l]) hs.label
  | shutdown =>
    refine ⟨?_, rfl, hg.withSession hs.close⟩
    exact congrArg (fun l => [Event.shuttingDown l]) hs.label
  | abort message =>
    obtain ⟨hf, ht⟩ := hs.abort message
    exact ⟨congrArg (fun f => [Event.aborting f]) hf, congrArg Outcome.failed hf,
      hg.withSession ht⟩

theorem UpToLeft.perform (hg : g.UpToLeft h) (step : Step α) :
    (g.perform step).1 = (h.perform step).1 ∧ (g.perform step).2.1 = (h.perform step).2.1 ∧
      (g.perform step).2.2.UpToLeft (h.perform step).2.2 := by
  rcases hg.session with ⟨hs, ht⟩ | ⟨s, t, hs, ht, hst⟩
  · unfold Host.perform
    rw [hs, ht]
    exact ⟨rfl, rfl, hg⟩
  · rw [perform_eq hs, perform_eq ht]
    exact hg.act hst step

theorem UpToLeft.shows (hg : g.UpToLeft h) (steps : List (Step α)) :
    g.shows steps = h.shows steps := by
  induction steps generalizing g h with
  | nil => rfl
  | cons step later ih =>
    obtain ⟨he, ho, hr⟩ := hg.perform step
    have hface : (g.perform step).2.2.isAlive = (h.perform step).2.2.isAlive ∧
        (g.perform step).2.2.session.map (·.lines) = (h.perform step).2.2.session.map (·.lines) ∧
        (g.perform step).2.2.session.map (·.firstWord?) =
          (h.perform step).2.2.session.map (·.firstWord?) := by
      unfold isAlive
      rcases hr.session with ⟨hs, ht⟩ | ⟨s, t, hs, ht, hst⟩
      · simp [hs, ht]
      · simp [hs, ht, hst.alive, hst.lines, hst.firstWord?]
    obtain ⟨ha, hl, hw⟩ := hface
    simp only [Host.shows, he, ho, ha, hl, hw, ih hr]

end Host

namespace Session

variable {s t : Session}

/-- A new session in the place of `s`. The lines before it count, and it goes on with what is left
of the supplier. -/
def anew (s : Session) : Session := start ⟨s.label, s.lines, s.firstWord?.isSome⟩ s.supplier

/-- The first words take note of what has been emitted. -/
def noting (es : List Emission) (s : Session) : Session :=
  { s with scanner := { s.scanner with words := es.foldl Emission.noted s.scanner.words } }

theorem words_reset (w : FirstWords) :
    w.reset = if w.word?.isSome then .fresh else .untracked := by
  cases w <;> rfl

theorem anew_eq (s : Session) :
    s.anew = { label := s.label, lines := s.lines, supplier := s.supplier,
               scanner := { words := s.scanner.words.reset } } := by
  rw [words_reset]
  rfl

theorem upToLeft_discard (h : s.Sound) (hw : s.Waits) :
    s.discard.2.UpToLeft { label := s.label, lines := s.lines, supplier := s.supplier,
                           scanner := { words := s.scanner.words } } := by
  refine ⟨h.abandoned_hangUp, [], nofun, ?_⟩
  obtain ⟨hf, hs, ha⟩ := hw
  unfold leaving
  show _ = Session.mk _ _ s.scanner.discard none [] _ s.alive s.signals s.failure
  rw [hf, hs, ha]
  rfl

/-- The session once its task has had so many turns in a row. All but the first do nothing. -/
def settled (n : Nat) (s : Session) : Session := if n = 0 then s else s.settle.2

theorem settled_eq (h : s.Sound) (n : Nat) :
    (s.settled n).Sound ∧ (s.settled n).outlook = s.outlook := by
  cases n with
  | zero => exact ⟨h, rfl⟩
  | succ n => exact ⟨(settle_spec h).2.1, (settle_spec h).2.2.1⟩

/-- A task that has turns between the two calls has its token noted, and no more. -/
theorem upToLeft_noting (h : s.Sound) (hw : s.Waits) (n : Nat) :
    (s.reset.settled n).discard.2.UpToLeft
      (s.anew.noting (if n = 0 then [] else s.upcoming)) := by
  have hr : s.reset.Sound := (agrees_words h s.scanner.words.reset).right
  have hwr : s.reset.Waits := ⟨hw.failure, hw.signals, hw.alive⟩
  have hem : s.reset.scanner.emissions = s.scanner.emissions :=
    (Scanner.alike_iff.2 ⟨h.cursor, h.cursor, rfl⟩ : s.scanner.Alike s.reset.scanner).drain.1
  have hup : s.reset.upcoming = s.upcoming := by
    unfold upcoming
    rw [hem]
    rfl
  have hwords : (s.reset.settled n).scanner.words =
      (if n = 0 then [] else s.upcoming).foldl Emission.noted s.scanner.words.reset := by
    cases n with
    | zero => rfl
    | succ n => exact hup ▸ words_settle hr
  obtain ⟨hs, ho⟩ := settled_eq hr n
  have hd := upToLeft_discard hs (hwr.of_outlook ho)
  obtain ⟨hl, hn, hsup, -⟩ := outlook_eq_iff.1 ho
  rw [hl, hn, hsup, hwords] at hd
  unfold noting
  rw [anew_eq]
  exact hd

/-- Once the reader has turned away from its task, nothing is noted any more. -/
theorem upToLeft_anew (h : s.Sound) (hw : s.Waits) (n : Nat) :
    (s.discard.2.settled n).reset.UpToLeft s.anew := by
  have hd := (upToLeft_discard h hw).words FirstWords.reset
  rw [anew_eq]
  cases n with
  | zero => exact hd
  | succ n =>
    show UpToLeft s.discard.2.settle.2.reset _
    rw [settle_of_no_task h.discard rfl]
    exact ⟨nofun, hd.2⟩

end Session

namespace Host

variable {α : Type} {h : Host α} {s : Session}

theorem after_settles (hs : h.session = some s) (hsound : s.Sound) (n : Nat) :
    h.after (List.replicate n .settle) = h.withSession (s.settled n) := by
  induction n generalizing h s with
  | zero => exact (withSession_self hs).symm
  | succ n ih =>
    have hp : (h.perform .settle).2.2 = h.withSession s.settle.2 := by
      rw [perform_eq hs]
      rfl
    have hagain : s.settle.2.settled n = s.settle.2 := by
      unfold Session.settled
      rw [Session.settle_settle hsound, ite_self]
    rw [List.replicate_succ]
    show (h.perform .settle).2.2.after _ = _
    rw [hp, ih rfl (Session.settle_spec hsound).2.1, hagain]
    rfl

theorem shows_of_upToLeft {t u : Session} (ht : t.UpToLeft u) (later : List (Step α)) :
    (h.withSession t).shows later = (h.withSession u).shows later := by
  have hg : (h.withSession t).UpToLeft (h.withSession u) := ⟨rfl, rfl, .inr ⟨t, u, rfl, rfl, ht⟩⟩
  exact hg.shows later

/-- After its input has been discarded and it has been reset, a session shows what a new one shows,
whatever turns its task has, and so it does if the two calls follow each other the other way round.
If the task has turns after the reset and before the rest is discarded, then its next token counts
for the first words, and all else is as with a new session. -/
theorem shows_renewed (h : Host α) (s : Session) (hs : h.session = some s) (hr : s.Reachable)
    (hw : s.Waits) (n : Nat) (later : List (Step α)) :
    let turns := List.replicate n Step.settle
    let noted := if n = 0 then [] else s.upcoming
    (h.after (.discard :: turns ++ [.reset])).shows later =
        (h.withSession s.anew).shows later ∧
      (h.after [.reset, .discard]).shows later = (h.withSession s.anew).shows later ∧
      (h.after (.reset :: turns ++ [.discard])).shows later =
          (h.withSession (s.anew.noting noted)).shows later ∧
        noted.length ≤ 1 ∧ noted <+: s.scanner.emissions := by
  intro turns noted
  have hperform (step : Step α) (t : Session)
      (ht : ∀ g : Host α, (act step s g).2.2 = g.withSession t) (rest : List (Step α)) :
      h.after (step :: rest) = (h.withSession t).after rest := by
    show (h.perform step).2.2.after rest = _
    rw [perform_eq hs, ht]
  have hreset : s.reset.Sound := (Session.agrees_words hr.sound s.scanner.words.reset).right
  have hbetween (n : Nat) :
      (h.after (.reset :: List.replicate n .settle ++ [.discard])).shows later =
        (h.withSession (s.anew.noting (if n = 0 then [] else s.upcoming))).shows later := by
    rw [List.cons_append, hperform .reset s.reset fun _ => rfl, after_append,
      after_settles rfl hreset]
    exact shows_of_upToLeft (Session.upToLeft_noting hr.sound hw n) later
  refine ⟨?_, hbetween 0, hbetween n, ?_⟩
  · rw [List.cons_append, hperform .discard s.discard.2 fun _ => rfl, after_append,
      after_settles rfl hr.sound.discard]
    exact shows_of_upToLeft (Session.upToLeft_anew hr.sound hw n) later
  · cases n with
    | zero => exact ⟨Nat.zero_le 1, List.nil_prefix⟩
    | succ n => exact s.upcoming_isPrefix

theorem renewed_in_group :
    let h : Host Nat := (start { lines := 3, interactive := true } (some (.ofLines ["x\n"]))
      (some fun _ => true)).after [.feed "a", .discard, .feed "(echo \"b\" \"c", .next, .next,
        .settle, .feed "d"]
    let later : List (Step Nat) :=
      [.feed "ok", .probe ")\n", .settle, .lex, .send .interrupt, .drain]
    ∃ s, h.session = some s ∧ s.held? = some ⟨.doubleQuoted, "b"⟩ ∧ s.Reachable ∧ s.Waits ∧
      (h.after [.discard, .settle, .settle, .reset]).shows later =
        (h.withSession s.anew).shows later ∧
      (h.after [.reset, .discard]).shows later = (h.withSession s.anew).shows later := by
  -- A group is open, a token is held, more has been fed behind it, and another task has been
  -- turned away from.
  intro h later
  have hany : h.session.any (fun s => s.held? = some ⟨.doubleQuoted, "b"⟩ ∧ s.failure = none ∧
      s.signals = [] ∧ s.alive = true) = true := by decide +kernel
  obtain ⟨s, hs, hp⟩ := (Option.any_eq_true _ _).1 hany
  obtain ⟨hheld, hf, hsig, hal⟩ := of_decide_eq_true hp
  have hr : s.Reachable := reachable_after_start _ _ _ _ hs
  have hw : s.Waits := ⟨hf, hsig, hal⟩
  obtain ⟨hlast, hfirst, -⟩ := shows_renewed h s hs hr hw 2 later
  exact ⟨s, hs, hheld, hr, hw, hlast, hfirst⟩

/-- Between the two calls the task comes upon a word of the text that is to be discarded. What is fed
behind that is then taken for an argument. -/
theorem word_of_discarded :
    let h : Host Nat := (start { interactive := true } none none).after [.feed "ls "]
    let later : List (Step Nat) := [.feed "pwd\n", .next]
    ∃ s, h.session = some s ∧ s.Reachable ∧ s.Waits ∧
      ((h.after [.reset, .settle, .discard]).shows later).map (·.word) =
        [some (some "ls"), some (some "ls")] ∧
      ((h.withSession s.anew).shows later).map (·.word) =
        [some (some ""), some (some "pwd")] := by
  intro h later
  have hany : h.session.any (fun s => (s.failure = none ∧ s.signals = [] ∧ s.alive = true) ∧
      ((h.withSession s.anew).shows later).map (·.word) =
        [some (some ""), some (some "pwd")]) = true := by
    decide +kernel
  obtain ⟨s, hs, hp⟩ := (Option.any_eq_true _ _).1 hany
  obtain ⟨⟨hf, hsig, hal⟩, hnew⟩ := of_decide_eq_true hp
  exact ⟨s, hs, reachable_after_start _ _ _ _ hs, ⟨hf, hsig, hal⟩, by decide +kernel, hnew⟩

end Host

end ShellTokens
