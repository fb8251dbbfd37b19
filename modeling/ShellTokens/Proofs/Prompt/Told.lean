import ShellTokens.Proofs.Prompt.Keys
import ShellTokens.Proofs.Session.Settle

/-!
# What the prompt shows

What is on the screen in the end follows from the entries one after the other. Each text brings what
one scanner makes of it, and what is cancelled takes the scanner back to where it was in the
beginning. The schedule decides which first words are found, and nothing else.
-/

namespace ShellTokens

open Event (requests requests_append requests_of_any)

/-! ## Tokens and words together -/

namespace Session

variable {s : Session}

theorem Sound.drain_of_handoff_none (h : s.Sound) (ha : s.alive = true) (hh : s.handoff = none) :
    s.scanner.drain.1 = [] := by
  have hc := h.coming_eq_nil ha hh
  rw [coming, held?_of_handoff hh, Option.toList_none, List.nil_append, List.map_eq_nil_iff] at hc
  exact List.map_eq_nil_iff.1 hc

theorem firstWord?_receive (text : String) (last : Bool) (s : Session) :
    (s.receive text last).firstWord? = s.firstWord? := by
  simp only [receive, append, spawn, firstWord?, Scanner.append]

theorem await_unheld (h : s.Sound) (ha : s.alive = true) (hh : s.handoff.isSome = true)
    (hn : s.held? = none) (retries : Nat) :
    (s.await retries).2.2.held? = none ∧
      ((∃ e rescan, (s.await retries).2.1 = .done (.token e.toToken) ∧
          (s.await retries).2.2.handoff = some ⟨some {}, rescan⟩ ∧
          s.scanner.drain.1 = (e, (s.await retries).2.2.firstWord?) ::
            (s.await retries).2.2.scanner.drain.1) ∨
        ((s.await retries).2.1 = .again retries ∧
          s.scanner.drain.1 = (s.await retries).2.2.scanner.drain.1)) := by
  obtain ⟨⟨task, rescan⟩, ho⟩ := Option.isSome_iff_exists.1 hh
  rw [await_eq]
  unfold settle
  rw [Task.workAll_closed h.abandoned, ha, ho]
  cases task with
  | none =>
    cases rescan with
    | false => exact ⟨rfl, .inr ⟨rfl, rfl⟩⟩
    | true => exact ⟨rfl, .inr ⟨rfl, rfl⟩⟩
  | some task =>
    have hc : task.closed = false := h.opened _ task ho rfl
    have hf : task.offered = none := by
      rw [held?, ho] at hn
      exact hn
    simp only [Task.work, hc, hf, Bool.false_eq_true, if_false, Option.isSome_none, Bool.not_true]
    rcases hs : s.scanner.scan with ⟨_ | e, c⟩
    · have hd : s.scanner.drain.1 = c.drain.1 := by
        have hb : s.scanner.behind = c := Scanner.behind_of_scan_none hs
        rw [Scanner.drain_of_scan_none hs, ← hb, Scanner.drain_behind]
      cases rescan with
      | false => exact ⟨rfl, .inr ⟨rfl, hd⟩⟩
      | true => exact ⟨rfl, .inr ⟨rfl, hd⟩⟩
    · have hd : s.scanner.drain.1 = (e, c.words.word?) :: c.drain.1 := by
        rw [Scanner.drain_of_scan_some hs]
      exact ⟨rfl, .inl ⟨e, rescan, rfl, rfl, hd⟩⟩

end Session

namespace Prompt

variable {s t : Session} {es : List Event} {entries later : List Entry}

/-! ## The specification -/

def following (shown : List Shown) (r : List Shown × List Entry) : List Shown × List Entry :=
  (shown ++ r.1, r.2)

theorem following_following (shown more : List Shown) (r : List Shown × List Entry) :
    following shown (following more r) = following (shown ++ more) r := by
  unfold following
  rw [List.append_assoc]

/-- The first word once `r` has been taken and `later` is still to come. It is the one right after
`r`, or where the scan task has its turn before, the one right after what comes next. -/
def foundWord (turn : Bool) (r : Emission × Option String)
    (later : List (Emission × Option String)) : Option String :=
  if turn then (later.head?.map (·.2)).getD r.2 else r.2

/-- Each emission with the first word that is found when it is shown. -/
def found : Schedule → List (Emission × Option String) → List (Emission × Option String)
  | _, [] => []
  | turns, r :: later => (r.1, foundWord (turns 0) r later) :: found (turns.drop 1) later

def Shown.ofEmission (r : Emission × Option String) : Shown := .token r.1.toToken (r.2.getD "")

def showing (turns : Schedule) (rs : List (Emission × Option String)) : List Shown :=
  (found turns rs).map .ofEmission

def shownOf (turns : Schedule) (text : String) (s : Scanner) : List Shown :=
  showing turns (s.append (Text.bytes text)).drain.1

/-- The scanner once the half-typed command has been forgotten. -/
def forgotten (s : Scanner) : Scanner := { s with words := s.words.reset }.discard

/-- What the entries bring, where one scanner scans their texts one after the other, and those that
nobody asks for. One of them ends the input. -/
def told : Schedule → List Entry → Scanner → List Shown × List Entry
  | _, [], _ => ([], [])
  | turns, e :: later, s =>
    following [.entry e] <|
      match e.answer with
      | .line text =>
        let shown := shownOf turns (Text.joined text) s
        following shown (told (turns.drop shown.length) later
          (s.append (Text.bytes (Text.joined text))).behind)
      | .retry => told turns later s
      | .cancelled => told (turns.drop 2) later (forgotten s)
      | .eof rest => (shownOf turns (Text.joined rest ++ "\n") s, later)
      | .fatal rest reason =>
        (showing turns ((.token (.error reason), s.words.word?) ::
          (s.append (Text.bytes (Text.joined rest ++ "\n"))).drain.1), later)

theorem Schedule.drop_drop (turns : Schedule) (m n : Nat) :
    (turns.drop m).drop n = turns.drop (m + n) :=
  funext fun i => congrArg turns (Nat.add_assoc m n i).symm

theorem Schedule.drop_zero (turns : Schedule) : turns.drop 0 = turns :=
  funext fun i => congrArg turns (Nat.zero_add i)

theorem fst_found (turns : Schedule) (rs : List (Emission × Option String)) :
    (found turns rs).map (·.1) = rs.map (·.1) := by
  induction rs generalizing turns with
  | nil => rfl
  | cons r later ih => rw [found, List.map_cons, List.map_cons, ih]

theorem length_showing (turns : Schedule) (rs : List (Emission × Option String)) :
    (showing turns rs).length = rs.length := by
  have hl := congrArg List.length (fst_found turns rs)
  rw [List.length_map, List.length_map] at hl
  rw [showing, List.length_map, hl]

/-! ## One call of the reader after the other -/

def after (turns : Schedule) (p : Pull) (t : Session) (left : List Entry) :
    List Shown × List Entry :=
  match p with
  | .token k =>
    if k.isFatal then transcript (turns.drop 2) (restart turns t) left
    else
      following [.token k ((pass (turns 0) t).firstWord?.getD "")]
        (transcript (turns.drop 1) (pass (turns 0) t) left)
  | .nothing | .blocked => ([], left)
  | .failed f => ([.failure f], left)

variable {turns : Schedule}

theorem transcript_eq (turns : Schedule) (s : Session) (entries : List Entry) :
    transcript turns s entries =
      following ((entries.take (requests s.next.1)).map .entry)
        (after turns s.next.2.1 s.next.2.2 (entries.drop (requests s.next.1))) := by
  rw [transcript]
  split
  next es p t hs =>
    unfold after following
    cases p with
    | token k =>
      simp only [hs]
      split <;> rfl
    | failed f =>
      simp only [hs]
      rfl
    | nothing | blocked =>
      simp only [hs, List.append_nil]
      rfl

theorem transcript_of_again {n : Nat} (ht : s.turn 0 = (es, .again n, t)) (turns : Schedule)
    (entries : List Entry) :
    transcript turns s entries =
      following ((entries.take (requests es)).map .entry)
        (transcript turns t (entries.drop (requests es))) := by
  obtain ⟨he, hp⟩ := Session.pull_retries n 0 t
  have hs : s.next = _ := Session.pull_of_again ht
  rw [transcript_eq turns s, transcript_eq turns t, hs, following_following]
  simp only [requests_append, he, hp, List.take_add, List.map_append, List.drop_drop]
  rfl

theorem transcript_of_done {p : Pull} (ht : s.turn 0 = (es, .done p, t)) (turns : Schedule)
    (entries : List Entry) :
    transcript turns s entries =
      following ((entries.take (requests es)).map .entry)
        (after turns p t (entries.drop (requests es))) := by
  have hs : s.next = _ := Session.pull_of_done ht
  rw [transcript_eq turns s, hs]

/-! ## A turn of the scan task in between -/

theorem transcript_pass (h : s.Sound) (hw : s.Waits) (hh : s.handoff.isSome = true) (turn : Bool)
    (turns : Schedule) (entries : List Entry) :
    transcript turns (pass turn s) entries = transcript turns s entries := by
  cases turn with
  | false => rfl
  | true =>
    obtain ⟨hn, hr⟩ := Session.next_settle h hw hh
    show transcript turns s.settle.2 entries = _
    rw [transcript_eq turns s, transcript_eq turns s.settle.2, hr, hn]

theorem firstWord?_pass {rescan : Bool} (h : s.Sound) (ha : s.alive = true)
    (hh : s.handoff = some ⟨some {}, rescan⟩) (turn : Bool) (e : Emission) :
    (pass turn s).firstWord? = foundWord turn (e, s.firstWord?) s.scanner.drain.1 := by
  cases turn with
  | false => rfl
  | true =>
    show s.settle.2.firstWord? = (s.scanner.drain.1.head?.map (·.2)).getD s.firstWord?
    rw [Session.firstWord?, Session.settle_of_task h ha hh]
    have hwords := s.scanner.words_scan
    rcases hs : s.scanner.scan with ⟨_ | e', c⟩
    · rw [hs] at hwords
      rw [Scanner.drain_of_scan_none hs]
      exact congrArg FirstWords.word? hwords
    · rw [Scanner.drain_of_scan_some hs]
      rfl

theorem pass_of_no_task (h : s.Sound) (hh : s.handoff = none) (turn : Bool) :
    ∃ left, (∀ task ∈ left, task.closed = true) ∧ pass turn s = { s with abandoned := left } := by
  cases turn with
  | false => exact ⟨s.abandoned, h.abandoned, rfl⟩
  | true => exact ⟨[], nofun, Session.settle_of_no_task h hh⟩

/-! ## All that comes out of the input -/

theorem isFatal_toToken {c : Scanner} {e : Emission} (he : e ∈ c.emissions) :
    e.toToken.isFatal = false := by
  have ht := c.isText_emissions e he
  simp only [Token.isFatal, decide_eq_false_iff_not]
  intro hk
  rw [hk] at ht
  cases ht

/-- While the reader knows of a task, a turn shows at most the token that comes next. -/
theorem transcript_of_task (h : s.Sound) (hw : s.Waits) (hh : s.handoff.isSome = true)
    (hn : s.held? = none) :
    (s.turn 0).2.2.held? = none ∧
      ((∃ r, s.scanner.drain.1 = r :: (s.turn 0).2.2.scanner.drain.1 ∧
          ∀ turns entries, transcript turns s entries =
            following [.ofEmission (r.1, foundWord (turns 0) r (s.turn 0).2.2.scanner.drain.1)]
              (transcript (turns.drop 1) (s.turn 0).2.2 entries)) ∨
        (s.scanner.drain.1 = (s.turn 0).2.2.scanner.drain.1 ∧
          ∀ turns entries, transcript turns s entries =
            transcript turns (s.turn 0).2.2 entries)) := by
  obtain ⟨hnt, hr⟩ := Session.await_unheld h hw.alive hh hn 0
  obtain ⟨hes, -⟩ := Session.await_spec h hw.alive hh 0
  obtain ⟨-, hsound, -⟩ := Session.turn_of_waits h hw hh
  have hwaits := hw.turn h hh
  have ht := Session.turn_of_handoff hw hh 0
  rw [ht] at hsound hwaits ⊢
  rcases ha : s.await 0 with ⟨es, r, t⟩
  rw [ha] at hnt hr hes ht hsound hwaits
  have hq : requests es = 0 := requests_of_any (Session.any_of_noted hes).1
  refine ⟨hnt, ?_⟩
  rcases hr with ⟨e, rescan, hr, hopen, hd⟩ | ⟨hr, hd⟩
  · simp only at hr hopen hd
    subst hr
    have hm : e ∈ s.scanner.emissions := by
      rw [Scanner.emissions, hd]
      exact List.mem_cons_self
    refine .inl ⟨_, hd, fun turns entries => ?_⟩
    rw [transcript_of_done ht, hq, after, isFatal_toToken hm, List.drop_zero,
      if_neg Bool.false_ne_true, firstWord?_pass hsound hwaits.alive hopen _ e,
      transcript_pass hsound hwaits (by rw [hopen]; rfl)]
    rfl
  · simp only at hr hd
    subst hr
    refine .inr ⟨hd, fun turns entries => ?_⟩
    rw [transcript_of_again ht, hq, List.drop_zero]
    rfl

theorem transcript_readOut (h : s.Sound) (hw : s.Waits) (hn : s.held? = none) (turns : Schedule)
    (entries : List Entry) :
    transcript turns s entries =
      following (showing turns s.scanner.drain.1)
        (transcript (turns.drop s.scanner.drain.1.length) s.readOut.2 entries) := by
  induction he : s.effort using Nat.strongRecOn generalizing s turns with
  | ind n ih =>
    rcases ho : s.handoff with _ | o
    · rw [h.drain_of_handoff_none hw.alive ho,
        Session.readOut_of_pauses (Session.pauses_of_handoff_none hw ho), List.length_nil,
        turns.drop_zero]
      rfl
    · -- Each turn of the task leaves less to do, and what it brings is shown in front of the rest.
      have hh : s.handoff.isSome = true := by rw [ho]; rfl
      have hlt := Session.await_effort_lt hh 0
      rw [← Session.turn_of_handoff hw hh] at hlt
      obtain ⟨hp, hsound, -⟩ := Session.turn_of_waits h hw hh
      have hrest (turns : Schedule) := ih _ (he ▸ hlt) hsound (hw.turn h hh)
        (transcript_of_task h hw hh hn).1 turns rfl
      rw [Session.readOut_of_turn hp]
      obtain ⟨-, ⟨r, hd, ht⟩ | ⟨hd, ht⟩⟩ := transcript_of_task h hw hh hn
      · rw [ht, hd, hrest, following_following, List.length_cons, turns.drop_drop, Nat.add_comm 1]
        rfl
      · rw [ht, hd, hrest]

/-! ## One entry after the other -/

theorem any_isLast_of_cons {e : Entry} (h : (e :: later).any (·.answer.isLast) = true)
    (he : e.answer.isLast = false) : later.any (·.answer.isLast) = true := by
  rwa [List.any_cons, he, Bool.false_or] at h

theorem asks_restart {answers : List Answer} (h : s.Asks answers) (turns : Schedule) :
    (restart turns s).Asks answers ∧ (restart turns s).scanner = forgotten s.scanner := by
  obtain ⟨left, hleft, hpass⟩ := pass_of_no_task h.sound h.handoff (turns 0)
  have hsound : Session.Sound { s with abandoned := left } :=
    ⟨h.sound.cursor, hleft, h.sound.opened, h.sound.idle⟩
  have hreset := (Session.agrees_words hsound s.scanner.words.reset).right
  obtain ⟨left', hleft', hpass'⟩ := pass_of_no_task hreset h.handoff (turns 1)
  have hpassed : Session.Sound { s with
      scanner := { s.scanner with words := s.scanner.words.reset }, abandoned := left' } :=
    ⟨hreset.cursor, hleft', hreset.opened, hreset.idle⟩
  have hr : restart turns s = (Session.discard { s with
      scanner := { s.scanner with words := s.scanner.words.reset }, abandoned := left' }).2 := by
    unfold restart
    rw [hpass]
    exact congrArg (·.discard.2) hpass'
  rw [hr]
  refine ⟨⟨hpassed.discard, ⟨h.waits.failure, h.waits.signals, h.waits.alive⟩, rfl, ?_,
    h.supplier⟩, rfl⟩
  exact Scanner.behind_of_halt (Scanner.step_of_empty rfl rfl)

theorem transcript_last {answers : List Answer} (h : s.Asks answers) (text : String)
    (turns : Schedule) (left : List Entry) :
    transcript turns (s.receive text true) left =
      (shownOf turns (Text.joined text ++ "\n") s.scanner, left) := by
  obtain ⟨-, hp, -⟩ := h.readOut_receive text true
  have hw : (s.receive text true).Waits := ⟨h.waits.failure, h.waits.signals, h.waits.alive⟩
  have hnone (turns : Schedule) :
      transcript turns (s.receive text true).readOut.2 left = ([], left) :=
    transcript_of_done (Session.turn_of_no_supplier hp.waits hp.handoff hp.supplier 0) turns left
  rw [transcript_readOut (h.sound.receive text true) hw rfl, hnone]
  simp only [following, List.append_nil]
  rfl

/-- The prompt shows what the entries bring, provided that one of them ends the input. -/
theorem transcript_eq_told (h : s.Asks (entries.map (·.answer)))
    (hl : entries.any (·.answer.isLast) = true) (turns : Schedule) :
    transcript turns s entries = told turns entries s.scanner := by
  induction entries generalizing s turns with
  | nil => cases hl
  | cons e later ih =>
    let u := { s with supplier := some (.ofAnswers (later.map Entry.answer)) }
    have hu : u.Asks (later.map (·.answer)) := h.go _
    obtain ⟨es, ht, hq⟩ := h.turn (a := e.answer) rfl
    rw [told]
    cases ha : e.answer with
    | line text =>
      rw [ha] at ht
      have hlast := any_isLast_of_cons hl (by rw [ha]; rfl)
      obtain ⟨-, -, hv⟩ := hu.readOut_receive text false
      have hw : (u.receive text false).Waits :=
        ⟨h.waits.failure, h.waits.signals, h.waits.alive⟩
      have hsc : (u.receive text false).scanner =
          s.scanner.append (Text.bytes (Text.joined text)) := by
        simp [Session.receive, Session.append, Session.spawn, u]
      simp only [Bool.false_eq_true, if_false, String.append_empty] at hv
      rw [transcript_of_again ht, hq]
      show following [.entry e] (transcript turns (u.receive text false) later) = _
      rw [transcript_readOut (hu.sound.receive text false) hw rfl turns later,
        ih (hu.line text) hlast, hv, hsc]
      simp only [shownOf, length_showing]
      rfl
    | retry =>
      rw [ha] at ht
      have hlast := any_isLast_of_cons hl (by rw [ha]; rfl)
      rw [transcript_of_again ht, hq]
      show following [.entry e] (transcript turns u later) = _
      rw [ih hu hlast]
    | cancelled =>
      rw [ha] at ht
      have hlast := any_isLast_of_cons hl (by rw [ha]; rfl)
      obtain ⟨hr, hs⟩ := asks_restart hu turns
      rw [transcript_of_done ht, hq]
      show following [.entry e] (transcript (turns.drop 2) (restart turns u) later) = _
      rw [ih hr hlast, hs]
    | eof rest =>
      rw [ha] at ht
      rw [transcript_of_again ht, hq]
      show following [.entry e] (transcript turns (u.receive rest true) later) = _
      rw [transcript_last hu]
    | fatal rest reason =>
      -- The error comes while the task is about to scan the last text.
      rw [ha] at ht
      have hsound := hu.sound.receive rest true
      have hw : (u.receive rest true).Waits := ⟨h.waits.failure, h.waits.signals, h.waits.alive⟩
      have hword := firstWord?_pass hsound hw.alive rfl (turns 0) (.token (.error reason))
      rw [transcript_of_done ht, hq]
      show following [.entry e] (following
        [.token (.error reason) ((pass (turns 0) (u.receive rest true)).firstWord?.getD "")]
        (transcript (turns.drop 1) (pass (turns 0) (u.receive rest true)) later)) = _
      rw [transcript_pass hsound hw rfl, transcript_last hu, hword, Session.firstWord?_receive]
      rfl

/-! ## Entries in front of others -/

theorem forgotten_eq {s : Scanner} (h : s.words.word?.isSome = true) :
    forgotten s = .fresh true := by
  have hr : s.words.reset = .fresh := by
    cases hw : s.words with
    | untracked =>
      rw [hw] at h
      cases h
    | tracked word outer => rfl
  unfold forgotten
  rw [hr]
  rfl

/-- How many calls of the prompt the schedule speaks of. A token's word is asked for, and a line
that is cancelled is forgotten with two calls. -/
def Shown.calls : Shown → Nat
  | .entry e => if e.answer = .cancelled then 2 else 0
  | .token .. => 1
  | .failure _ => 0

def calls : List Shown → Nat
  | [] => 0
  | x :: later => x.calls + calls later

theorem calls_append (shown more : List Shown) :
    calls (shown ++ more) = calls shown + calls more := by
  induction shown with
  | nil => exact (Nat.zero_add _).symm
  | cons x later ih => rw [List.cons_append, calls, calls, ih, Nat.add_assoc]

theorem calls_showing (turns : Schedule) (rs : List (Emission × Option String)) :
    calls (showing turns rs) = rs.length := by
  induction rs generalizing turns with
  | nil => rfl
  | cons r later ih =>
    rw [List.length_cons, ← ih (turns.drop 1), Nat.add_comm]
    rfl

/-- Only so many calls make a difference. -/
def LooksAt (n : Nat) (f : Schedule → List Shown) : Prop :=
  ∀ turns turns' : Schedule, (∀ i < n, turns i = turns' i) → f turns = f turns'

theorem looksAt_showing (rs : List (Emission × Option String)) :
    LooksAt rs.length (showing · rs) := by
  induction rs with
  | nil => exact fun _ _ _ => rfl
  | cons r later ih =>
    intro turns turns' h
    have hrest : showing (turns.drop 1) later = showing (turns'.drop 1) later :=
      ih _ _ fun i hi => h (1 + i) (by rw [List.length_cons]; omega)
    show Shown.ofEmission (r.1, foundWord (turns 0) r later) :: showing (turns.drop 1) later = _
    rw [hrest, h 0 (Nat.succ_pos _)]
    rfl

theorem LooksAt.cons {n : Nat} {f : Schedule → List Shown} (h : LooksAt n f) (x : Shown) :
    LooksAt n fun turns => x :: f turns :=
  fun turns turns' hi => congrArg (List.cons x) (h turns turns' hi)

theorem LooksAt.drop {n : Nat} {f : Schedule → List Shown} (h : LooksAt n f) (m : Nat) :
    LooksAt (m + n) fun turns => f (turns.drop m) :=
  fun turns turns' hi => h (turns.drop m) (turns'.drop m) fun i hn => hi (m + i) (by omega)

theorem LooksAt.append {m n : Nat} {f g : Schedule → List Shown} (hf : LooksAt m f)
    (hg : LooksAt n g) : LooksAt (m + n) fun turns => f turns ++ g (turns.drop m) := by
  intro turns turns' h
  have hfirst := hf turns turns' fun i hi => h i (by omega)
  have hlater := hg.drop m turns turns' h
  simp only at hlater
  simp only [hfirst, hlater]

theorem told_append_of_open {first : List Entry} (hf : first.any (·.answer.isLast) = false)
    {s : Scanner} (hs : s.words.word?.isSome = true) :
    ∃ (t : Scanner) (n : Nat) (shown : Schedule → List Shown), t.words.word?.isSome = true ∧
      LooksAt n shown ∧ (∀ turns, calls (shown turns) = n) ∧
      ∀ turns later, told turns (first ++ later) s =
        following (shown turns) (told (turns.drop n) later t) := by
  induction first generalizing s with
  | nil =>
    refine ⟨s, 0, fun _ => [], hs, fun _ _ _ => rfl, fun _ => rfl, fun turns later => ?_⟩
    rw [turns.drop_zero]
    rfl
  | cons e first ih =>
    rw [List.any_cons, Bool.or_eq_false_iff] at hf
    cases ha : e.answer with
    | line text =>
      let rs := (s.append (Text.bytes (Text.joined text))).drain.1
      have hb := s.isSome_word?_behind_append (Text.bytes (Text.joined text))
      obtain ⟨t, n, shown, ht, hl, hc, hm⟩ := ih hf.2 (hb.trans hs)
      refine ⟨t, rs.length + n,
        fun turns => .entry e :: (showing turns rs ++ shown (turns.drop rs.length)), ht,
        ((looksAt_showing rs).append hl).cons _, fun turns => ?_, fun turns later => ?_⟩
      · rw [calls, calls_append, calls_showing, hc, Shown.calls, ha]
        exact Nat.zero_add _
      · simp only [List.cons_append, List.nil_append, told, ha, hm, following_following, shownOf,
          length_showing, Schedule.drop_drop, rs]
    | retry =>
      obtain ⟨t, n, shown, ht, hl, hc, hm⟩ := ih hf.2 hs
      refine ⟨t, n, fun turns => .entry e :: shown turns, ht, hl.cons _, fun turns => ?_,
        fun turns later => ?_⟩
      · rw [calls, hc, Shown.calls, ha]
        exact Nat.zero_add _
      · simp only [List.cons_append, List.nil_append, told, ha, hm, following_following]
    | cancelled =>
      -- A scanner that tracks the first words still does so once it has forgotten them.
      obtain ⟨t, n, shown, ht, hl, hc, hm⟩ := ih hf.2 (s := forgotten s) (by
        rw [forgotten_eq hs]; rfl)
      refine ⟨t, 2 + n, fun turns => .entry e :: shown (turns.drop 2), ht, (hl.drop 2).cons _,
        fun turns => ?_, fun turns later => ?_⟩
      · rw [calls, hc, Shown.calls, ha]
        rfl
      · simp only [List.cons_append, List.nil_append, told, ha, hm, following_following,
          Schedule.drop_drop]
    | eof rest | fatal rest reason =>
      rw [ha] at hf
      cases hf.1

theorem told_append_of_last {first : List Entry} (hf : first.any (·.answer.isLast) = true)
    (turns : Schedule) (later : List Entry) (s : Scanner) :
    told turns (first ++ later) s =
      ((told turns first s).1, (told turns first s).2 ++ later) := by
  induction first generalizing turns s with
  | nil => cases hf
  | cons e first ih =>
    cases ha : e.answer with
    | line text | retry | cancelled =>
      have hlast := any_isLast_of_cons hf (by rw [ha]; rfl)
      simp only [List.cons_append, told, ha, ih hlast, following]
    | eof rest | fatal rest reason =>
      simp only [List.cons_append, told, ha, following]

/-! ## The prompt from its start to its end -/

theorem run_eq (keys : List Key) (turns : Schedule) :
    run keys turns = ⟨(told turns (Prompt.entries keys) (.fresh true)).1,
      (told turns (Prompt.entries keys) (.fresh true)).2.foldl (fun n e => n + e.events) 0⟩ := by
  have h : transcript turns (session (Prompt.entries keys)) (Prompt.entries keys) =
      told turns (Prompt.entries keys) (.fresh true) :=
    transcript_eq_told (Session.asks_start _ _) (isLast_entriesFrom [] "" 0 keys) turns
  unfold run
  simp only [h]

theorem failure_notMem_showing (f : Failure) (turns : Schedule)
    (rs : List (Emission × Option String)) : .failure f ∉ showing turns rs := by
  intro hm
  obtain ⟨r, -, hr⟩ := List.mem_map.1 hm
  cases hr

/-- The reader of a prompt never fails, since no parser gives up there. -/
theorem failure_notMem_run (f : Failure) (keys : List Key) (turns : Schedule) :
    .failure f ∉ (run keys turns).shown := by
  rw [run_eq]
  generalize Prompt.entries keys = entries, Scanner.fresh true = s
  induction entries generalizing turns s with
  | nil => exact List.not_mem_nil
  | cons e later ih =>
    unfold told following
    cases e.answer with
    | line text =>
      have hl := ih (turns.drop (shownOf turns (Text.joined text) s).length)
        (s.append (Text.bytes (Text.joined text))).behind
      simpa [shownOf, failure_notMem_showing] using hl
    | retry => simpa using ih turns s
    | cancelled => simpa using ih (turns.drop 2) (forgotten s)
    | eof rest => simp [shownOf, failure_notMem_showing]
    | fatal rest reason => simp [failure_notMem_showing]

end Prompt

end ShellTokens
