import ShellTokens.Proofs.Scanner.Chunks
import ShellTokens.Proofs.Session.Turn

/-!
# What a session has before it

How far the scan task has run decides where a token is: offered, or still in the input. It does not
decide which tokens come, and that is all a reader can tell.
-/

namespace ShellTokens

namespace Event

def isMalformed : Event → Bool
  | malformed .. => true
  | _ => false

/-- What the reader notes down. -/
def noted (es : List Event) : List Event := es.filter (!·.isMalformed)

theorem noted_append (es fs : List Event) : noted (es ++ fs) = noted es ++ noted fs :=
  List.filter_append es fs

theorem noted_events (e : Emission) : noted e.events = [] := by
  cases e <;> rfl

theorem any_of_noted_eq_nil {p : Event → Bool} (hp : ∀ byte state, p (malformed byte state) = false)
    {es : List Event} (h : noted es = []) : es.any p = false := by
  rw [List.any_eq_false]
  intro e he
  have hm := List.filter_eq_nil_iff.1 h e he
  cases e with
  | malformed byte state => simp [hp]
  | _ => exact absurd rfl hm

end Event

open Event (noted noted_append noted_events)

/-! ## The turn of a task -/

/-- A task moves tokens from the input to where the reader takes them. -/
structure Task.Works (alive : Bool) (task : Task) (s : Scanner) (r : Shift) : Prop where
  events : noted r.events = []
  cursor : r.scanner.cursor.Sound
  coming : (r.task.bind (·.offered)).toList ++ r.scanner.emissions.map Emission.toToken =
    task.offered.toList ++ s.emissions.map Emission.toToken
  behind : r.scanner.behind = s.behind
  opened : ∀ t, r.task = some t → t.closed = false
  ended : alive = true → r.task = none → r.scanner.emissions = []
  offered : alive = true → ∀ t, r.task = some t → t.offered.isSome = true

theorem Task.work_spec (alive : Bool) {task : Task} {s : Scanner} (hc : task.closed = false)
    (hs : s.cursor.Sound) : task.Works alive s (task.work alive s) := by
  unfold Task.work
  rw [if_neg (by simp [hc])]
  split
  · next ho =>
    refine ⟨rfl, hs, rfl, rfl, ?_, ?_, ?_⟩
    · rintro t ⟨⟩
      exact hc
    · rintro - ⟨⟩
    · rintro - t ⟨⟩
      exact ho
  · next ho =>
    have hn : task.offered = none := by simpa using ho
    split
    · next ha =>
      refine ⟨rfl, hs, by rw [hn]; rfl, rfl, ?_, ?_, ?_⟩
      · rintro t ⟨⟩
      · intro ha'
        simp [ha'] at ha
      · rintro - t ⟨⟩
    · have hsound := Scanner.sound_scan hs
      have hem := s.emissions_scan
      have hb := s.behind_scan
      split
      · next t he =>
        rw [he] at hsound hem hb
        refine ⟨rfl, hsound, by rw [hn, hem]; rfl, hb, ?_, ?_, ?_⟩
        · rintro t' ⟨⟩
        · rintro - -
          exact Scanner.emissions_of_scan_none he
        · rintro - t' ⟨⟩
      · next e t he =>
        rw [he] at hsound hem hb
        refine ⟨noted_events e, hsound, by rw [hn, hem]; rfl, hb, ?_, ?_, ?_⟩
        · rintro t' ⟨⟩
          exact hc
        · rintro - ⟨⟩
        · rintro - t' ⟨⟩
          rfl

theorem Task.workAll_closed {alive : Bool} {tasks : List Task}
    (h : ∀ task ∈ tasks, task.closed = true) (s : Scanner) :
    Task.workAll alive tasks s = ([], [], s) := by
  induction tasks with
  | nil => rfl
  | cons task tasks ih =>
    have hw : task.work alive s = { task := none, scanner := s } := by
      rw [Task.work, if_pos (h task List.mem_cons_self)]
    rw [Task.workAll, hw, ih fun t ht => h t (List.mem_cons_of_mem task ht)]
    rfl

namespace Session

/-- The tokens that come out of the input that is there. -/
def coming (s : Session) : List Token :=
  s.held?.toList ++ s.scanner.emissions.map Emission.toToken

def isIdle (s : Session) : Bool := s.handoff.all fun h => h.task.isNone && !h.rescan

/-- Nothing is lost: while the session is alive and all is idle, all of the input has been scanned.
Tasks are open until the reader turns away from them. -/
structure Sound (s : Session) : Prop where
  cursor : s.scanner.cursor.Sound
  abandoned : ∀ task ∈ s.abandoned, task.closed = true
  opened : ∀ o task, s.handoff = some o → o.task = some task → task.closed = false
  idle : s.alive = true → s.isIdle = true → s.scanner.emissions = []

/-- All of a session that decides what a reader gets. A session that is not alive gives no more
tokens, whatever there is left of its input. -/
structure Outlook where
  label : String
  lines : LineCount
  supplier : Option Supplier
  signals : List Signal
  failure : Option Failure
  input : Option (List Token × Scanner.Standing)

def outlook (s : Session) : Outlook where
  label := s.label
  lines := s.lines
  supplier := s.supplier
  signals := s.signals
  failure := s.failure
  input := if s.alive then some (s.coming, s.scanner.behind.standing) else none

variable {s t : Session}

theorem alive_of_outlook (h : s.outlook = t.outlook) : s.alive = t.alive := by
  have hi := congrArg (fun o : Outlook => o.input.isSome) h
  revert hi
  cases hs : s.alive <;> cases ht : t.alive <;> simp [outlook, hs, ht]

theorem input_of_outlook (h : s.outlook = t.outlook) (ha : s.alive = true) :
    s.coming = t.coming ∧ s.scanner.behind.standing = t.scanner.behind.standing := by
  have hi := congrArg Outlook.input h
  have ht := alive_of_outlook h
  rw [ha] at ht
  simpa [outlook, ha, ← ht] using hi

theorem outlook_eq_iff : s.outlook = t.outlook ↔
    s.label = t.label ∧ s.lines = t.lines ∧ s.supplier = t.supplier ∧ s.signals = t.signals ∧
      s.failure = t.failure ∧ s.alive = t.alive ∧
      (s.alive = true → s.coming = t.coming ∧
        s.scanner.behind.standing = t.scanner.behind.standing) := by
  constructor
  · intro h
    have ha := alive_of_outlook h
    refine ⟨?_, ?_, ?_, ?_, ?_, ha, input_of_outlook h⟩
    · exact congrArg Outlook.label h
    · exact congrArg Outlook.lines h
    · exact congrArg Outlook.supplier h
    · exact congrArg Outlook.signals h
    · exact congrArg Outlook.failure h
  · rintro ⟨hl, hn, hp, hs, hf, ha, hi⟩
    unfold outlook
    rw [hl, hn, hp, hs, hf, ha]
    rw [ha] at hi
    by_cases hat : t.alive = true
    · rw [if_pos hat, if_pos hat, (hi hat).1, (hi hat).2]
    · rw [if_neg hat, if_neg hat]

theorem outlook_input (ha : s.alive = true) :
    s.outlook = { s.outlook with input := some (s.coming, s.scanner.behind.standing) } := by
  unfold outlook
  rw [if_pos ha]

theorem held?_of_handoff (h : s.handoff = none) : s.held? = none := by
  unfold held?
  rw [h]
  rfl

theorem Sound.coming_eq_nil (h : s.Sound) (ha : s.alive = true) (hh : s.handoff = none) :
    s.coming = [] := by
  have hi : s.isIdle = true := by unfold isIdle; rw [hh]; rfl
  unfold coming
  rw [held?_of_handoff hh, h.idle ha hi]
  rfl

theorem settle_spec (h : s.Sound) :
    noted s.settle.1 = [] ∧ s.settle.2.Sound ∧ s.settle.2.outlook = s.outlook ∧
      (s.alive = true → ∀ o task, s.settle.2.handoff = some o → o.task = some task →
        task.offered.isSome = true) := by
  unfold settle
  rw [Task.workAll_closed h.abandoned]
  simp only
  split
  · next task rescan hh =>
    have hw := Task.work_spec s.alive (h.opened _ task hh rfl) h.cursor
    have hheld : s.held? = task.offered := by rw [held?, hh]; rfl
    refine ⟨hw.events, ⟨hw.cursor, nofun, ?_, ?_⟩, ?_, ?_⟩
    · rintro o task' ⟨⟩
      exact hw.opened task'
    · intro ha hi
      simp only [isIdle, Option.all_some, Bool.and_eq_true, Option.isNone_iff_eq_none] at hi
      exact hw.ended ha hi.1
    · have hc := hw.coming
      rw [← hheld] at hc
      simp only [outlook, coming]
      rw [hw.behind, ← hc]
      rfl
    · rintro ha o task' ⟨⟩
      exact hw.offered ha task'
  · next hh =>
    refine ⟨rfl, ⟨h.cursor, nofun, h.opened, h.idle⟩, rfl, ?_⟩
    rintro - ⟨_, rescan⟩ task ho rfl
    exact absurd ho (hh task rescan)

/-- The reader takes what comes next, or goes on with all of it still to come. -/
structure Proceeds (s : Session) (retries : Nat) (r : Turn × Session) : Prop where
  sound : r.2.Sound
  result : (∃ k ks, r.1 = .done (.token k) ∧ s.coming = k :: ks ∧
      r.2.outlook = { s.outlook with input := some (ks, s.scanner.behind.standing) }) ∨
    r.1 = .again retries ∧ r.2.outlook = s.outlook

theorem Sound.spawn (h : s.Sound) : s.spawn.Sound := by
  refine ⟨h.cursor, h.abandoned, ?_, nofun⟩
  rintro o task ⟨⟩ ⟨⟩
  rfl

theorem collect_spec (h : s.Sound) (ha : s.alive = true) (hs : s.handoff.isSome = true)
    (ht : ∀ o task, s.handoff = some o → o.task = some task → task.offered.isSome = true)
    (retries : Nat) : s.Proceeds retries (s.collect retries) := by
  unfold collect
  split
  · next k closed rescan hh =>
    have hopen : closed = false := h.opened _ _ hh rfl
    refine ⟨⟨h.cursor, h.abandoned, ?_, nofun⟩,
      .inl ⟨k, s.scanner.emissions.map Emission.toToken, rfl, ?_, ?_⟩⟩
    · rintro o task ⟨⟩ ⟨⟩
      exact hopen
    · rw [coming, held?, hh]
      rfl
    · rw [outlook, outlook, if_pos ha]
      rfl
  · next task hno hh =>
    -- Input came in while the task was at work, and the next task scans it.
    have hn : s.held? = none := by
      rw [held?, hh]
      cases task with
      | none => rfl
      | some task =>
        obtain ⟨k, hk⟩ := Option.isSome_iff_exists.1 (ht _ task hh rfl)
        exact absurd (by rw [← hk]) (hno k task.closed)
    refine ⟨h.spawn, .inr ⟨rfl, ?_⟩⟩
    simp only [outlook, coming, hn]
    rfl
  · next hno hno' =>
    obtain ⟨⟨task, rescan⟩, hh⟩ := Option.isSome_iff_exists.1 hs
    have hr : rescan = false := by
      cases rescan with
      | false => rfl
      | true => exact absurd hh (hno' task)
    have ht : task = none := by
      cases task with
      | none => rfl
      | some task =>
        obtain ⟨k, hk⟩ := Option.isSome_iff_exists.1 (ht _ task hh rfl)
        exact absurd (by rw [hh, ← hk]) (hno k task.closed rescan)
    subst hr ht
    have hi : s.isIdle = true := by rw [isIdle, hh]; rfl
    have hn : s.held? = none := by rw [held?, hh]; rfl
    refine ⟨⟨h.cursor, h.abandoned, ?_, fun _ _ => h.idle ha hi⟩, .inr ⟨rfl, ?_⟩⟩
    · rintro o task ⟨⟩
    · simp only [outlook, coming, hn]
      rfl

theorem await_spec (h : s.Sound) (ha : s.alive = true) (hs : s.handoff.isSome) (retries : Nat) :
    noted (s.await retries).1 = [] ∧ s.Proceeds retries (s.await retries).2 := by
  obtain ⟨he, hsound, ho, hof⟩ := settle_spec h
  have hat : s.settle.2.alive = true := (alive_of_outlook ho).trans ha
  obtain ⟨hc, hb⟩ := input_of_outlook ho hat
  have hsome : s.settle.2.handoff.isSome = true := settle_handoff_isSome hs
  have hp := collect_spec hsound hat hsome (hof ha) retries
  rw [await_eq]
  refine ⟨he, hp.sound, ?_⟩
  have hr := hp.result
  rwa [ho, hc, hb] at hr

/-! ## What the other parts of a session leave of it -/

theorem Sound.receive (h : s.Sound) (text : String) (last : Bool) :
    (s.receive text last).Sound := by
  refine ⟨h.cursor.append _, h.abandoned, ?_, nofun⟩
  rintro o task ⟨⟩ ⟨⟩
  rfl

theorem Sound.send (h : s.Sound) (signal : Signal) : (s.send signal).Sound := by
  cases signal with
  | interrupt => exact ⟨h.cursor, h.abandoned, h.opened, h.idle⟩
  | shutdown => exact ⟨h.cursor, h.abandoned, h.opened, nofun⟩

theorem Sound.sendAll (h : s.Sound) (signals : List Signal) : (s.sendAll signals).Sound := by
  induction signals generalizing s with
  | nil => exact h
  | cons signal signals ih => exact ih (h.send signal)

theorem Sound.called (h : s.Sound) (supplier : Supplier) : (s.called supplier).Sound := by
  have hs : Sound { s with supplier := some supplier.ask.2 } :=
    ⟨h.cursor, h.abandoned, h.opened, h.idle⟩
  exact hs.sendAll supplier.ask.1.signals

theorem Sound.feed (h : s.Sound) (text : String) : (s.feed text).2.Sound := by
  unfold Session.feed
  repeat' split
  · exact h
  · exact h
  · next o ho =>
    refine ⟨h.cursor.append _, h.abandoned, ?_, ?_⟩
    · rintro o' task ⟨⟩ ht
      exact h.opened o task ho ht
    · intro _ hi
      simp [isIdle] at hi
  · exact ⟨h.cursor.append _, h.abandoned, by rintro o task ⟨⟩ ⟨⟩; rfl, nofun⟩

theorem Sound.abandoned_hangUp (h : s.Sound) :
    ∀ task ∈ s.hangUp.abandoned, task.closed = true := by
  intro task ht
  simp only [hangUp, List.mem_append, List.mem_map] at ht
  rcases ht with ht | ⟨task', -, rfl⟩
  · exact h.abandoned task ht
  · rfl

theorem Sound.discard (h : s.Sound) : s.discard.2.Sound := by
  refine ⟨⟨Nat.le_refl _, Nat.le_refl _⟩, h.abandoned_hangUp, ?_, fun _ _ => ?_⟩
  · rintro o task ⟨⟩
  · exact Scanner.emissions_of_halt (Scanner.step_of_empty rfl rfl)

theorem Sound.close (h : s.Sound) : s.close.Sound := by
  refine ⟨h.cursor, h.abandoned_hangUp, ?_, nofun⟩
  rintro o task ⟨⟩

theorem sound_start (o : Options) (supplier : Option Supplier) : (start o supplier).Sound := by
  refine ⟨Scanner.sound_fresh o.interactive, nofun, ?_, fun _ _ => ?_⟩
  · rintro o task ⟨⟩
  · exact Scanner.emissions_of_halt (Scanner.step_of_empty rfl rfl)

/-! ## What more input does to the outlook -/

theorem coming_append (hs : s.scanner.cursor.Sound) (text : String) :
    (s.append text).coming =
      s.coming ++ (s.scanner.behind.append (Text.bytes text)).emissions.map Emission.toToken := by
  have he := Scanner.emissions_append hs (Text.bytes text)
  have hh : (s.append text).held? = s.held? := rfl
  have hc : (s.append text).scanner = s.scanner.append (Text.bytes text) := rfl
  rw [coming, coming, hh, hc, he, List.map_append, List.append_assoc]

theorem input_append (hs : s.scanner.cursor.Sound) (ht : t.scanner.cursor.Sound)
    (hc : s.coming = t.coming) (hb : s.scanner.behind.standing = t.scanner.behind.standing)
    (text : String) :
    (s.append text).coming = (t.append text).coming ∧
      (s.append text).scanner.behind.standing = (t.append text).scanner.behind.standing := by
  have ha : s.scanner.behind.Alike t.scanner.behind :=
    Scanner.alike_iff.2 ⟨Scanner.sound_behind hs, Scanner.sound_behind ht, hb.symm⟩
  obtain ⟨he, hbb⟩ := (ha.append (Text.bytes text)).drain
  constructor
  · rw [coming_append hs, coming_append ht, hc, he]
  · have hst := ((Scanner.behind_append hs (Text.bytes text)).symm.trans hbb).trans
      (Scanner.behind_append ht (Text.bytes text))
    exact (Scanner.alike_iff.1 hst).2.2.symm

theorem outlook_spawn (h : s.held? = none) : s.spawn.outlook = s.outlook := by
  unfold outlook coming
  rw [h]
  rfl

theorem outlook_feed (s : Session) (text : String) (hf : s.failure = none)
    (ha : s.alive = true) :
    (s.feed text).1 = none ∧ (s.feed text).2.outlook = (s.append text).outlook := by
  unfold feed
  rw [hf, ha]
  simp only [Bool.not_true, Bool.false_eq_true, if_false]
  split
  · next o ho =>
    refine ⟨rfl, ?_⟩
    unfold outlook coming held? append
    simp only [ho]
    rfl
  · next ho =>
    refine ⟨rfl, outlook_spawn ?_⟩
    unfold held? append
    simp only [ho]
    rfl

theorem outlook_receive (hs : s.handoff = none) (text : String) (last : Bool) :
    (s.receive text last).outlook =
      { (s.append (Text.joined text ++ if last then "\n" else "")).outlook with
        lines := s.lines + 1
        supplier := if last then none else s.supplier } := by
  have hh (x : String) : (s.append x).held? = none := held?_of_handoff hs
  unfold outlook coming
  rw [hh]
  rfl

end Session

end ShellTokens
