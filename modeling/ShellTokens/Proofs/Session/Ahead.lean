import ShellTokens.Proofs.Session.Agrees
import ShellTokens.Session.Host

/-!
# How far the scan task runs ahead

A host gives the scan tasks their turn whenever it likes. All that it sees of a session, but for the
first words, is the same whenever that is.
-/

namespace ShellTokens

open Event (noted noted_append)

def Taken.plain (t : Taken) : Token × Nat := (t.token, t.lines)

namespace Session

variable {s t : Session}

theorem Agrees.drain (h : s.Agrees t) :
    noted s.drain.1 = noted t.drain.1 ∧
      s.drain.2.1.map Taken.plain = t.drain.2.1.map Taken.plain ∧
      s.drain.2.2.1 = t.drain.2.2.1 ∧ s.drain.2.2.2.Agrees t.drain.2.2.2 := by
  induction s using drain_induction generalizing t with
  | token s es k s' hs ih =>
    obtain ⟨hes, hr, ha⟩ := h.pull 0
    rcases ht : t.next with ⟨fs, q, t'⟩
    rw [← next, ← next, hs, ht] at hes hr ha
    obtain rfl : .token k = q := hr
    obtain ⟨hes', htk, hr', ha'⟩ := ih ha
    have hn : s'.lines = t'.lines := (outlook_eq_iff.1 ha.outlook).2.1
    rw [drain_of_token hs, drain_of_token ht]
    refine ⟨?_, ?_, hr', ha'⟩
    · rw [noted_append, noted_append, hes, hes']
    · simp only [List.map_cons, Taken.plain, hn] at htk ⊢
      rw [htk]
  | last s es p s' hs hp =>
    obtain ⟨hes, hr, ha⟩ := h.pull 0
    rcases ht : t.next with ⟨fs, q, t'⟩
    rw [← next, ← next, hs, ht] at hes hr ha
    obtain rfl : p = q := hr
    rw [drain_of_end hs hp, drain_of_end ht hp]
    exact ⟨hes, rfl, rfl, ha⟩

/-! ## Trying a line out -/

theorem probe_tokens (s : Session) (line : String) :
    (s.probe line).drain.1.map Emission.toToken = (s.append line).coming := by
  unfold probe Probe.drain coming Scanner.emissions
  have hid : Emission.toToken ∘ Emission.token = id := rfl
  simp only [List.map_append, List.map_map, hid, List.map_id]
  rfl

theorem Agrees.probe (h : s.Agrees t) (ha : s.alive = true) (line : String) :
    (s.probe line).drain.1.map Emission.toToken = (t.probe line).drain.1.map Emission.toToken ∧
      (s.probe line).isComplete = (t.probe line).isComplete := by
  obtain ⟨hc, hb⟩ := input_of_outlook (outlook_append h line) ha
  rw [probe_tokens, probe_tokens, hc]
  refine ⟨rfl, ?_⟩
  have hl : (s.append line).scanner.behind.Alike (t.append line).scanner.behind :=
    Scanner.alike_iff.2 ⟨Scanner.sound_behind (h.left.cursor.append _),
      Scanner.sound_behind (h.right.cursor.append _), hb.symm⟩
  exact hl.twins_behind.isSettled

end Session

namespace Host

variable {α : Type}

/-! ## What a host sees -/

def Step.isSettle : Step α → Bool
  | .settle => true
  | _ => false

/-- What a step gives back, but for the first words. What a probe of a session finds that is not
alive any more does not count. -/
inductive Sight where
  | plain (o : Outcome)
  | drained (tokens : List (Token × Nat)) (last : Pull)
  | probed (tokens : List Token) (complete : Bool) (label : String) (lines : LineCount)
  | dead

def Outcome.sight (alive : Bool) : Outcome → Sight
  | .drained tokens last => .drained (tokens.map Taken.plain) last
  | .probed p =>
    if alive then .probed (p.drain.1.map Emission.toToken) p.isComplete p.label p.lines else .dead
  | o => .plain o

structure Seen where
  sight : Sight
  /-- Each call of the supplier is among them. -/
  events : List Event
  alive : Bool
  lines : Option LineCount

def look (step : Step α) (h : Host α) : Seen × Host α :=
  let r := h.perform step
  ({ sight := r.2.1.sight h.isAlive
     events := noted r.1
     alive := r.2.2.isAlive
     lines := r.2.2.session.map (·.lines) }, r.2.2)

/-- What is seen of all steps, but for the turns of the scan tasks. -/
def seen : List (Step α) → Host α → List Seen
  | [], _ => []
  | step :: later, h =>
    let r := h.look step
    if step.isSettle then seen later r.2 else r.1 :: seen later r.2

structure Agrees (g h : Host α) : Prop where
  accepts : g.accepts = h.accepts
  received : g.received = h.received
  session : g.session = none ∧ h.session = none ∨
    ∃ s t, g.session = some s ∧ h.session = some t ∧ s.Agrees t

variable {g h : Host α} {s t : Session}

theorem Agrees.withSession (hg : g.Agrees h) (hs : s.Agrees t) :
    (g.withSession s).Agrees (h.withSession t) :=
  ⟨hg.accepts, hg.received, .inr ⟨s, t, rfl, rfl, hs⟩⟩

theorem Agrees.isAlive (hg : g.Agrees h) : g.isAlive = h.isAlive := by
  unfold Host.isAlive
  rcases hg.session with ⟨hs, ht⟩ | ⟨s, t, hs, ht, ha⟩
  · rw [hs, ht]
  · rw [hs, ht]
    exact Session.alive_of_outlook ha.outlook

theorem Agrees.lines (hg : g.Agrees h) : g.session.map (·.lines) = h.session.map (·.lines) := by
  rcases hg.session with ⟨hs, ht⟩ | ⟨s, t, hs, ht, ha⟩
  · rw [hs, ht]
  · rw [hs, ht]
    exact congrArg (fun o : Session.Outlook => some o.lines) ha.outlook

theorem session_submit (value : α) (h : Host α) : (h.submit value).2.session = h.session := by
  unfold submit
  split <;> rfl

theorem Agrees.submit (hg : g.Agrees h) (value : α) :
    (g.submit value).1 = (h.submit value).1 ∧ (g.submit value).2.Agrees (h.submit value).2 := by
  obtain ⟨gs, accepts, received⟩ := g
  obtain ⟨hs, accepts', received'⟩ := h
  obtain ⟨ha, hr, hs⟩ := hg
  simp only at ha hr
  subst ha hr
  cases accepts with
  | none => exact ⟨rfl, rfl, rfl, hs⟩
  | some accepts => exact ⟨rfl, rfl, rfl, hs⟩

theorem Agrees.act (hg : g.Agrees h) (hs : s.Agrees t) (step : Step α) :
    noted (act step s g).1 = noted (act step t h).1 ∧
      (act step s g).2.1.sight s.alive = (act step t h).2.1.sight t.alive ∧
      (act step s g).2.2.Agrees (act step t h).2.2 := by
  obtain ⟨hl, hn, -, -, -, ha, -⟩ := Session.outlook_eq_iff.1 hs.outlook
  cases step with
  | next =>
    obtain ⟨he, hr, hs'⟩ := hs.pull 0
    exact ⟨he, congrArg (fun p => Sight.plain (.pulled p)) hr, hg.withSession hs'⟩
  | lex =>
    obtain ⟨he, hr, hs'⟩ := hs.pull 0
    exact ⟨he, congrArg (fun p : Pull => Sight.plain (.pulled p.orEnd)) hr, hg.withSession hs'⟩
  | drain =>
    obtain ⟨he, htk, hr, hs'⟩ := hs.drain
    refine ⟨he, ?_, hg.withSession hs'⟩
    show Sight.drained (s.drain.2.1.map Taken.plain) s.drain.2.2.1 = _
    rw [htk, hr]
    rfl
  | feed text =>
    obtain ⟨hr, hs'⟩ := hs.feed text
    exact ⟨rfl, congrArg (fun f => Sight.plain (.fed f)) hr, hg.withSession hs'⟩
  | settle =>
    have hs' : s.settle.2.Agrees t.settle.2 :=
      ((Session.agrees_settle hs.left).symm.trans hs).trans (Session.agrees_settle hs.right)
    obtain ⟨hes, -⟩ := Session.settle_spec hs.left
    obtain ⟨het, -⟩ := Session.settle_spec hs.right
    exact ⟨hes.trans het.symm, rfl, hg.withSession hs'⟩
  | probe line =>
    refine ⟨rfl, ?_, hg⟩
    unfold Host.act Outcome.sight
    rw [← ha]
    cases hal : s.alive with
    | false => rfl
    | true =>
      obtain ⟨htk, hc⟩ := hs.probe hal line
      simp only [if_true, htk, hc]
      unfold Session.probe
      simp only [hl, hn]
  | abort message =>
    obtain ⟨hr, he, hs'⟩ := hs.abort message
    exact ⟨congrArg noted he, congrArg (fun f => Sight.plain (.failed f)) hr, hg.withSession hs'⟩
  | submit value =>
    obtain ⟨hr, hg'⟩ := hg.submit value
    exact ⟨rfl, congrArg (fun b => Sight.plain (.accepted b)) hr, hg'⟩
  | label => exact ⟨rfl, congrArg (fun l => Sight.plain (.labelled l)) hl, hg⟩
  | activate => exact ⟨rfl, rfl, hg.withSession (hs.words _ _)⟩
  | reset => exact ⟨rfl, rfl, hg.withSession (hs.words _ _)⟩
  | discard =>
    refine ⟨?_, rfl, hg.withSession hs.discard⟩
    exact congrArg (fun l => noted [.discarded l]) hl
  | shutdown =>
    refine ⟨?_, rfl, hg.withSession hs.close⟩
    exact congrArg (fun l => noted [.shuttingDown l]) hl
  | send signal => exact ⟨rfl, rfl, hg.withSession (hs.send signal)⟩
  | drop => exact ⟨rfl, rfl, ⟨hg.accepts, hg.received, .inl ⟨rfl, rfl⟩⟩⟩

theorem Agrees.look (hg : g.Agrees h) (step : Step α) :
    (g.look step).1 = (h.look step).1 ∧ (g.look step).2.Agrees (h.look step).2 := by
  have hp : noted (g.perform step).1 = noted (h.perform step).1 ∧
      (g.perform step).2.1.sight g.isAlive = (h.perform step).2.1.sight h.isAlive ∧
      (g.perform step).2.2.Agrees (h.perform step).2.2 := by
    unfold perform Host.isAlive
    rcases hg.session with ⟨hs, ht⟩ | ⟨s, t, hs, ht, ha⟩
    · rw [hs, ht]
      exact ⟨rfl, rfl, hg⟩
    · rw [hs, ht]
      exact hg.act ha step
  obtain ⟨he, ho, hr⟩ := hp
  unfold Host.look
  simp only [he, ho, hr.isAlive, hr.lines]
  exact ⟨trivial, hr⟩

/-- The turns of the scan tasks change nothing that a host sees. -/
theorem Agrees.settle (hg : g.Agrees h) : (g.look .settle).2.Agrees h := by
  unfold Host.look perform
  rcases hg.session with ⟨hs, ht⟩ | ⟨s, t, hs, ht, ha⟩
  · rw [hs]
    exact hg
  · rw [hs]
    refine ⟨hg.accepts, hg.received, .inr ⟨_, t, rfl, ht, ?_⟩⟩
    exact (Session.agrees_settle ha.left).symm.trans ha

theorem Agrees.seen (hg : g.Agrees h) (xs : List (Step α)) :
    g.seen xs = h.seen (xs.filter (!·.isSettle)) := by
  induction xs generalizing g h with
  | nil => rfl
  | cons step later ih =>
    cases hs : step.isSettle with
    | true =>
      obtain rfl : step = .settle := by
        cases step <;> first | rfl | cases hs
      exact ih hg.settle
    | false =>
      obtain ⟨hl, hr⟩ := hg.look step
      rw [List.filter_cons_of_pos (by simp [hs])]
      simp only [Host.seen, hs, Bool.false_eq_true, if_false, hl]
      exact congrArg _ (ih hr)

theorem agrees_refl (hs : ∀ s, g.session = some s → s.Sound) : g.Agrees g := by
  refine ⟨rfl, rfl, ?_⟩
  rcases hg : g.session with _ | s
  · exact .inl ⟨rfl, rfl⟩
  · exact .inr ⟨s, s, rfl, rfl, hs s hg, hs s hg, rfl⟩

def start (o : Options) (supplier : Option Supplier) (accepts : Option (List α → Bool)) :
    Host α :=
  { session := some (.start o supplier), accepts }

/-- Two runs that differ only in where the scan tasks have their turn show the same. -/
theorem seen_start (o : Options) (supplier : Option Supplier) (accepts : Option (List α → Bool))
    (xs ys : List (Step α)) (h : xs.filter (!·.isSettle) = ys.filter (!·.isSettle)) :
    (start o supplier accepts).seen xs = (start o supplier accepts).seen ys := by
  have hs : (start o supplier accepts).Agrees (start o supplier accepts) := by
    refine agrees_refl fun s hs => ?_
    cases hs
    exact Session.sound_start o supplier
  rw [hs.seen xs, hs.seen ys, h]

theorem seen_early_late :
    let early : List (Step Nat) := [.feed "ls |", .settle, .probe " cat", .next, .settle, .discard,
      .feed "a ", .settle, .lex, .send .interrupt, .settle, .drain]
    let late : List (Step Nat) := [.feed "ls |", .probe " cat", .next, .discard, .feed "a ", .lex,
      .send .interrupt, .drain, .settle]
    early.filter (!·.isSettle) = late.filter (!·.isSettle) ∧
      (start {} (some (.ofLines ["b\n"])) none).seen early =
        (start {} (some (.ofLines ["b\n"])) none).seen late := by
  intro early late
  exact ⟨rfl, seen_start {} (some (.ofLines ["b\n"])) none early late rfl⟩

end Host

end ShellTokens
