import ShellTokens.Proofs.Session.Lossless

/-!
# Reading up to a pause

A reader takes what is there, and sooner or later it has to ask for a line or comes back without a
token. Until then it gets the signals that have come in, and then the tokens that come out of the
input.
-/

namespace ShellTokens

open Event (requests requests_append requests_request requests_of_any)

def Turn.pull? : Turn → Option Pull
  | .done p => some p
  | .again _ => none

namespace Session

variable {s t : Session} {es : List Event}

/-! ## Turns up to the pause -/

/-- In its next turn the reader asks the supplier, or it comes back without a token. -/
def pauses (s : Session) : Bool :=
  let r := s.turn 0
  r.1.any Event.isRequest || !r.2.1.goesOn

/-- The tokens up to the next pause, and the session then. -/
def readOut (s : Session) : List Token × Session :=
  if _h : s.pauses = true then ([], s)
  else
    -- How often the supplier has put the reader off tells only in a turn that asks.
    let r := s.turn 0
    let rest := r.2.2.readOut
    (r.2.1.tokens ++ rest.1, rest.2)
  termination_by s.effort
  decreasing_by
    apply turn_effort_lt
    simp only [pauses, Bool.or_eq_true, Bool.not_eq_true'] at _h
    simpa using (not_or.1 _h).2

theorem readOut_of_pauses (h : s.pauses = true) : s.readOut = ([], s) := by
  rw [readOut, dif_pos h]

theorem readOut_of_turn (h : s.pauses = false) :
    s.readOut = ((s.turn 0).2.1.tokens ++ (s.turn 0).2.2.readOut.1, (s.turn 0).2.2.readOut.2) := by
  rw [readOut, dif_neg (by rw [h]; nofun)]

theorem pauses_readOut (s : Session) : s.readOut.2.pauses = true := by
  fun_induction readOut s with
  | case1 s h => exact h
  | case2 s _ _ _ ih => exact ih

/-! ## The supplier may put the reader off -/

/-- Two turns that differ at most in how often they say that the reader has been put off. -/
structure SameTurn (q r : List Event × Turn × Session) : Prop where
  requests : requests q.1 = requests r.1
  pull : q.2.1.pull? = r.2.1.pull?
  session : q.2.2 = r.2.2

theorem sameTurn_answered (m n : Nat) (a : Answer) (s : Session) :
    SameTurn (s.answered m a) (s.answered n a) := by
  cases a <;> exact ⟨rfl, rfl, rfl⟩

theorem sameTurn_ask (m n : Nat) (supplier : Supplier) (s : Session) :
    SameTurn (s.ask m supplier) (s.ask n supplier) := by
  rcases ha : supplier.ask.1.answer with _ | a
  · rw [ask_of_none ha, ask_of_none ha]
    refine ⟨rfl, ?_, rfl⟩
    simp only
    split <;> rfl
  · have hs := sameTurn_answered m n a (s.called supplier)
    rw [ask_of_some ha, ask_of_some ha]
    refine ⟨?_, hs.pull, hs.session⟩
    rw [requests_request, requests_request, hs.requests]

theorem sameTurn_await (m n : Nat) (s : Session) : SameTurn (s.await m) (s.await n) := by
  rw [await_eq, await_eq]
  unfold collect
  split <;> exact ⟨rfl, rfl, rfl⟩

theorem sameTurn_turn (m n : Nat) (s : Session) : SameTurn (s.turn m) (s.turn n) := by
  cases s.finds with
  | failure hf =>
    rw [turn_of_failure hf, turn_of_failure hf]
    exact ⟨rfl, rfl, rfl⟩
  | @signal signal later hf hs =>
    rw [turn_of_signal hf hs, turn_of_signal hf hs]
    cases signal <;> exact ⟨rfl, rfl, rfl⟩
  | dead hf hs ha =>
    rw [turn_of_dead hf hs ha, turn_of_dead hf hs ha]
    exact ⟨rfl, rfl, rfl⟩
  | task hw hh =>
    rw [turn_of_handoff hw hh, turn_of_handoff hw hh]
    exact sameTurn_await m n s
  | @supplier supplier hw hh hp =>
    rw [turn_of_supplier hw hh hp, turn_of_supplier hw hh hp]
    exact sameTurn_ask m n supplier s
  | nothing hw hh hp =>
    rw [turn_of_no_supplier hw hh hp, turn_of_no_supplier hw hh hp]
    exact ⟨rfl, rfl, rfl⟩

theorem pull_retries (m n : Nat) (s : Session) :
    requests (s.pull m).1 = requests (s.pull n).1 ∧ (s.pull m).2 = (s.pull n).2 := by
  induction m, s using pull_induction generalizing n with
  | done m s es p t hm =>
    obtain ⟨he, hr, ht⟩ := sameTurn_turn m n s
    rcases hn : s.turn n with ⟨fs, _ | _, u⟩
    all_goals
      rw [hm, hn] at he hr ht
      cases hr
    obtain rfl : t = u := ht
    rw [pull_of_done hm, pull_of_done hn]
    exact ⟨he, rfl⟩
  | again m s es k t hm ih =>
    obtain ⟨he, hr, ht⟩ := sameTurn_turn m n s
    rcases hn : s.turn n with ⟨fs, _ | l, u⟩
    all_goals
      rw [hm, hn] at he hr ht
      cases hr
    obtain rfl : t = u := ht
    obtain ⟨hk, hp⟩ := ih l
    rw [pull_of_again hm, pull_of_again hn]
    refine ⟨?_, hp⟩
    rw [requests_append, requests_append, hk]
    exact congrArg (· + _) he

theorem isRequest_ask (retries : Nat) (supplier : Supplier) (s : Session) :
    (s.ask retries supplier).1.any Event.isRequest = true := by
  cases ha : supplier.ask.1.answer with
  | none =>
    rw [ask_of_none ha]
    rfl
  | some a =>
    rw [ask_of_some ha]
    rfl

/-! ## The pause lies on the way -/

theorem drain_of_again {n : Nat} (ht : s.turn 0 = (es, .again n, t)) :
    s.drain.2 = t.drain.2 ∧ requests s.drain.1 = requests es + requests t.drain.1 := by
  have hs : s.next = _ := pull_of_again ht
  obtain ⟨he, hp⟩ := pull_retries n 0 t
  rcases hn : t.next with ⟨fs, p, u⟩
  rw [show t.pull 0 = _ from hn] at he hp
  rw [hp] at hs
  by_cases hk : ∃ k, p = .token k
  · obtain ⟨k, rfl⟩ := hk
    rw [drain_of_token hs, drain_of_token hn]
    simp only [requests_append, he, Nat.add_assoc, and_self]
  · have hk' : ∀ k, p ≠ .token k := fun k hp => hk ⟨k, hp⟩
    rw [drain_of_end hs hk', drain_of_end hn hk']
    simp only [requests_append, he, and_self]

/-- Reading on until there is no token goes by the pause, and nobody asks the supplier before it. -/
theorem drain_readOut (s : Session) :
    s.drain.2.1.map (·.token) = s.readOut.1 ++ s.readOut.2.drain.2.1.map (·.token) ∧
      s.drain.2.2 = s.readOut.2.drain.2.2 ∧
      requests s.drain.1 = requests s.readOut.2.drain.1 := by
  fun_induction readOut s with
  | case1 s h => exact ⟨rfl, rfl, rfl⟩
  | case2 s h r rest ih =>
    obtain ⟨hk, he, hr⟩ := ih
    simp only [pauses, Bool.or_eq_true, not_or, Bool.not_eq_true, Bool.not_eq_false'] at h
    have hn := requests_of_any h.1
    rcases ht : s.turn 0 with ⟨es, p | n, t⟩
    all_goals
      simp only [r, rest, ht] at h hn hk he hr ⊢
    · rcases p with k | _ | f | _
      case token =>
        rw [drain_of_token (pull_of_done ht)]
        refine ⟨?_, he, ?_⟩
        · rw [List.map_cons, hk]
          rfl
        · rw [requests_append, hn, hr, Nat.zero_add]
      all_goals cases h.2
    · obtain ⟨hd, hq⟩ := drain_of_again ht
      rw [hd, hq, hn, hr, Nat.zero_add]
      exact ⟨hk, he, rfl⟩

/-! ## What is there to read -/

theorem pauses_of_handoff_none (hw : s.Waits) (hh : s.handoff = none) : s.pauses = true := by
  unfold pauses
  cases hp : s.supplier with
  | none =>
    rw [turn_of_no_supplier hw hh hp]
    rfl
  | some supplier =>
    rw [turn_of_supplier hw hh hp]
    simp only [isRequest_ask, Bool.true_or]

theorem pauses_of_interrupt {later : List Signal} (hf : s.failure = none)
    (hs : s.signals = .interrupt :: later) : s.pauses = false := by
  unfold pauses
  rw [turn_of_signal hf hs]
  rfl

def Rests (s : Session) : Prop := s.isIdle = true → s.scanner.behind = s.scanner

theorem rests_of_not_idle (h : s.isIdle = false) : s.Rests := by
  intro hi
  rw [h] at hi
  cases hi

/-- Nothing of the input has been passed over on the way from `s` to `t`. -/
structure ReadsTo (s t : Session) : Prop where
  behind : t.scanner.behind = s.scanner.behind
  rests : s.Rests → t.Rests

theorem ReadsTo.trans {u : Session} (h : s.ReadsTo t) (h' : t.ReadsTo u) : s.ReadsTo u :=
  ⟨h'.behind.trans h.behind, fun hr => h'.rests (h.rests hr)⟩

theorem scanner_of_ended {task : Task} {s : Scanner} (hc : task.closed = false)
    (h : (task.work true s).task = none) : (task.work true s).scanner = s.behind := by
  revert h
  unfold Task.work
  rw [if_neg (by simp [hc])]
  split
  · nofun
  · rw [if_neg (by simp)]
    split
    · next t hs =>
      intro _
      exact (Scanner.behind_of_scan_none hs).symm
    · nofun

theorem readsTo_settle (h : s.Sound) (ha : s.alive = true) : s.ReadsTo s.settle.2 := by
  unfold settle
  rw [Task.workAll_closed h.abandoned, ha]
  simp only
  split
  · next task rescan hh =>
    have hc := h.opened _ task hh rfl
    have hb := (Task.work_spec true hc h.cursor).behind
    refine ⟨hb, fun _ hi => ?_⟩
    simp only [isIdle, Option.all_some, Bool.and_eq_true, Option.isNone_iff_eq_none] at hi
    exact hb.trans (scanner_of_ended hc hi.1).symm
  · exact ⟨rfl, id⟩

theorem readsTo_collect
    (ht : ∀ o task, s.handoff = some o → o.task = some task → task.offered.isSome = true)
    (retries : Nat) : s.ReadsTo (s.collect retries).2 := by
  unfold collect
  rcases hh : s.handoff with _ | ⟨_ | ⟨_ | k, closed⟩, _ | _⟩
  case some.some.none.false => cases ht _ _ hh rfl
  case none =>
    refine ⟨rfl, fun hr _ => hr ?_⟩
    rw [isIdle, hh]
    rfl
  case some.none.false =>
    refine ⟨rfl, fun hr _ => hr ?_⟩
    rw [isIdle, hh]
    rfl
  all_goals exact ⟨rfl, fun _ => rests_of_not_idle rfl⟩

theorem readsTo_await (h : s.Sound) (ha : s.alive = true) (retries : Nat) :
    s.ReadsTo (s.await retries).2.2 := by
  obtain ⟨-, -, -, hof⟩ := settle_spec h
  rw [await_eq]
  exact (readsTo_settle h ha).trans (readsTo_collect (hof ha) retries)

/-- `t` is where the reader pauses that goes on from `s`. -/
structure PausesAt (s t : Session) : Prop where
  sound : t.Sound
  waits : t.Waits
  handoff : t.handoff = none
  label : t.label = s.label
  lines : t.lines = s.lines
  supplier : t.supplier = s.supplier
  readsTo : s.ReadsTo t

theorem PausesAt.scanner (h : s.PausesAt t) (hr : s.Rests) : t.scanner = s.scanner.behind := by
  have hi : t.isIdle = true := by
    unfold isIdle
    rw [h.handoff]
    rfl
  exact (h.readsTo.rests hr hi).symm.trans h.readsTo.behind

theorem PausesAt.before {u : Session} (h : t.PausesAt u) (hread : s.ReadsTo t)
    (hl : t.label = s.label) (hn : t.lines = s.lines) (hp : t.supplier = s.supplier) :
    s.PausesAt u :=
  ⟨h.sound, h.waits, h.handoff, h.label.trans hl, h.lines.trans hn, h.supplier.trans hp,
    hread.trans h.readsTo⟩

theorem of_outlook_input {i : List Token × Scanner.Standing}
    (h : t.outlook = { s.outlook with input := some i }) :
    t.alive = true ∧ (t.coming, t.scanner.behind.standing) = i := by
  have hi : t.outlook.input = some i := congrArg Outlook.input h
  unfold outlook at hi
  cases ha : t.alive with
  | false => simp [ha] at hi
  | true => exact ⟨rfl, by simpa [ha] using hi⟩

theorem turn_of_waits (h : s.Sound) (hw : s.Waits) (hh : s.handoff.isSome = true) :
    s.pauses = false ∧ (s.turn 0).2.2.Sound ∧ s.ReadsTo (s.turn 0).2.2 ∧
      ∃ ks, s.coming = (s.turn 0).2.1.tokens ++ ks ∧
        (s.turn 0).2.2.outlook =
          { s.outlook with input := some (ks, s.scanner.behind.standing) } := by
  have hread := readsTo_await h hw.alive 0
  obtain ⟨hes, hsound, hr⟩ := await_spec h hw.alive hh 0
  unfold pauses
  rw [turn_of_handoff hw hh]
  simp only [(any_of_noted hes).1, Bool.false_or, Bool.not_eq_false']
  rcases hr with ⟨k, ks, hk, hc, hout⟩ | ⟨hk, hout⟩
  · rw [hk]
    exact ⟨rfl, hsound, hread, ks, hc, hout⟩
  · rw [hk]
    exact ⟨rfl, hsound, hread, s.coming, rfl, hout.trans (outlook_input hw.alive)⟩

theorem Waits.turn (hw : s.Waits) (h : s.Sound) (hh : s.handoff.isSome = true) :
    (s.turn 0).2.2.Waits := by
  obtain ⟨-, -, -, ks, -, hout⟩ := turn_of_waits h hw hh
  exact ⟨(congrArg Outlook.failure hout).trans hw.failure,
    (congrArg Outlook.signals hout).trans hw.signals, (of_outlook_input hout).1⟩

theorem readOut_of_waits (h : s.Sound) (hw : s.Waits) :
    s.readOut.1 = s.coming ∧ s.PausesAt s.readOut.2 := by
  induction he : s.effort using Nat.strongRecOn generalizing s with
  | ind n ih =>
    rcases ho : s.handoff with _ | o
    · rw [readOut_of_pauses (pauses_of_handoff_none hw ho), h.coming_eq_nil hw.alive ho]
      exact ⟨rfl, h, hw, ho, rfl, rfl, rfl, rfl, id⟩
    · have hh : s.handoff.isSome = true := by rw [ho]; rfl
      have hlt := await_effort_lt hh 0
      rw [← turn_of_handoff hw hh] at hlt
      obtain ⟨hp, hsound, hread, ks, hc, hout⟩ := turn_of_waits h hw hh
      obtain ⟨hk, hpause⟩ := ih _ (he ▸ hlt) hsound (hw.turn h hh) rfl
      have hks : (s.turn 0).2.2.coming = ks := congrArg Prod.fst (of_outlook_input hout).2
      rw [readOut_of_turn hp, hk, hc, hks]
      exact ⟨rfl, hpause.before hread (congrArg Outlook.label hout) (congrArg Outlook.lines hout)
        (congrArg Outlook.supplier hout)⟩

theorem readOut_of_signals (h : s.Sound) (hf : s.failure = none) (ha : s.alive = true)
    (hs : .shutdown ∉ s.signals) :
    s.readOut.1 = s.signals.map (fun _ => Token.interrupt) ++ s.coming ∧
      s.PausesAt s.readOut.2 := by
  -- Each signal is an interrupt and takes one turn, which leaves the input as it is.
  induction hl : s.signals generalizing s with
  | nil => exact readOut_of_waits h ⟨hf, hl, ha⟩
  | cons signal later ih =>
    rw [hl, List.mem_cons, not_or] at hs
    cases signal with
    | shutdown => exact absurd rfl hs.1
    | interrupt =>
      have ht : Sound { s with signals := later } :=
        ⟨h.cursor, h.abandoned, h.opened, h.idle⟩
      obtain ⟨hk, hp⟩ := ih ht hf ha hs.2 rfl
      rw [readOut_of_turn (pauses_of_interrupt hf hl), turn_of_signal hf hl]
      exact ⟨congrArg (List.cons Token.interrupt) hk, hp.before ⟨rfl, id⟩ rfl rfl rfl⟩

end Session

end ShellTokens
