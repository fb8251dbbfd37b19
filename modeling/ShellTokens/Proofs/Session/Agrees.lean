import ShellTokens.Proofs.Session.Outlook

/-!
# Sessions with the same outlook

Two sessions may differ in how far their scan tasks have run. As long as their outlooks are the
same, a reader gets the same from both, and afterwards the outlooks are the same again.
-/

namespace ShellTokens.Session

open Event (noted noted_append)

variable {s t : Session} {α : Type}

structure Agrees (s t : Session) : Prop where
  left : s.Sound
  right : t.Sound
  outlook : s.outlook = t.outlook

theorem Agrees.symm (h : s.Agrees t) : t.Agrees s := ⟨h.right, h.left, h.outlook.symm⟩

theorem agrees_settle (h : s.Sound) : s.Agrees s.settle.2 := by
  obtain ⟨-, hs, ho, -⟩ := settle_spec h
  exact ⟨h, hs, ho.symm⟩

/-! ## Input -/

theorem outlook_append (h : s.Agrees t) (text : String) :
    (s.append text).outlook = (t.append text).outlook := by
  rw [outlook_eq_iff]
  obtain ⟨hl, hn, hp, hs, hf, ha, hi⟩ := outlook_eq_iff.1 h.outlook
  refine ⟨hl, hn, hp, hs, hf, ha, fun hal => ?_⟩
  obtain ⟨hc, hb⟩ := hi hal
  exact input_append h.left.cursor h.right.cursor hc hb text

theorem Agrees.feed (h : s.Agrees t) (text : String) :
    (s.feed text).1 = (t.feed text).1 ∧ (s.feed text).2.Agrees (t.feed text).2 := by
  obtain ⟨-, -, -, -, hf, ha, -⟩ := outlook_eq_iff.1 h.outlook
  cases hfs : s.failure with
  | some f =>
    have hs : s.feed text = (some f, s) := by unfold Session.feed; rw [hfs]
    have ht : t.feed text = (some f, t) := by unfold Session.feed; rw [← hf, hfs]
    rw [hs, ht]
    exact ⟨rfl, h⟩
  | none =>
    cases has : s.alive with
    | false =>
      have hs : s.feed text = (some .shutDown, s) := by unfold Session.feed; rw [hfs, has]; rfl
      have ht : t.feed text = (some .shutDown, t) := by
        unfold Session.feed
        rw [← hf, hfs, ← ha, has]
        rfl
      rw [hs, ht]
      exact ⟨rfl, h⟩
    | true =>
      obtain ⟨hrs, hos⟩ := outlook_feed s text hfs has
      obtain ⟨hrt, hot⟩ := outlook_feed t text (hf ▸ hfs) (ha ▸ has)
      refine ⟨by rw [hrs, hrt], h.left.feed text, h.right.feed text, ?_⟩
      rw [hos, hot]
      exact outlook_append h text

/-! ## What comes from outside -/

theorem Agrees.send (h : s.Agrees t) (signal : Signal) :
    (s.send signal).Agrees (t.send signal) := by
  refine ⟨h.left.send signal, h.right.send signal, ?_⟩
  rw [outlook_eq_iff]
  obtain ⟨hl, hn, hp, hs, hf, ha, hi⟩ := outlook_eq_iff.1 h.outlook
  have hss : s.signals ++ [signal] = t.signals ++ [signal] := by rw [hs]
  cases signal with
  | interrupt => exact ⟨hl, hn, hp, hss, hf, ha, hi⟩
  | shutdown => exact ⟨hl, hn, hp, hss, hf, rfl, nofun⟩

theorem Agrees.sendAll (h : s.Agrees t) (signals : List Signal) :
    (s.sendAll signals).Agrees (t.sendAll signals) := by
  induction signals generalizing s t with
  | nil => exact h
  | cons signal signals ih => exact ih (h.send signal)

theorem Agrees.close (h : s.Agrees t) : s.close.Agrees t.close := by
  refine ⟨h.left.close, h.right.close, ?_⟩
  rw [outlook_eq_iff]
  obtain ⟨hl, hn, hp, hs, hf, -, -⟩ := outlook_eq_iff.1 h.outlook
  exact ⟨hl, hn, hp, hs, hf, rfl, nofun⟩

theorem Agrees.discard (h : s.Agrees t) : s.discard.2.Agrees t.discard.2 := by
  refine ⟨h.left.discard, h.right.discard, ?_⟩
  rw [outlook_eq_iff]
  obtain ⟨hl, hn, hp, hs, hf, ha, -⟩ := outlook_eq_iff.1 h.outlook
  refine ⟨hl, hn, hp, hs, hf, ha, fun _ => ?_⟩
  have hd (s : Scanner) : s.discard.step = .halt s.discard := Scanner.step_of_empty rfl rfl
  have hes : s.discard.2.scanner.emissions = [] := Scanner.emissions_of_halt (hd _)
  have het : t.discard.2.scanner.emissions = [] := Scanner.emissions_of_halt (hd _)
  have hbs : s.discard.2.scanner.behind = s.scanner.discard := Scanner.behind_of_halt (hd _)
  have hbt : t.discard.2.scanner.behind = t.scanner.discard := Scanner.behind_of_halt (hd _)
  constructor
  · unfold coming
    rw [hes, het]
    rfl
  · rw [hbs, hbt]
    rfl

theorem agrees_words (h : s.Sound) (w : FirstWords) :
    s.Agrees { s with scanner := { s.scanner with words := w } } := by
  have ha : s.scanner.Alike { s.scanner with words := w } :=
    Scanner.alike_iff.2 ⟨h.cursor, h.cursor, rfl⟩
  obtain ⟨he, hb⟩ := ha.drain
  refine ⟨h, ⟨h.cursor, h.abandoned, h.opened, fun hal hi => he.trans (h.idle hal hi)⟩, ?_⟩
  rw [outlook_eq_iff]
  refine ⟨rfl, rfl, rfl, rfl, rfl, rfl, fun _ => ⟨?_, (Scanner.alike_iff.1 hb).2.2.symm⟩⟩
  unfold coming
  rw [he]
  rfl

theorem Agrees.trans {u : Session} (h : s.Agrees t) (h' : t.Agrees u) : s.Agrees u :=
  ⟨h.left, h'.right, h.outlook.trans h'.outlook⟩

theorem Agrees.words (h : s.Agrees t) (v w : FirstWords) :
    Agrees { s with scanner := { s.scanner with words := v } }
      { t with scanner := { t.scanner with words := w } } :=
  ((agrees_words h.left v).symm.trans h).trans (agrees_words h.right w)

theorem Agrees.abort (h : s.Agrees t) (message : String) :
    (s.abort message).1 = (t.abort message).1 ∧ (s.abort message).2.1 = (t.abort message).2.1 ∧
      (s.abort message).2.2.Agrees (t.abort message).2.2 := by
  obtain ⟨hl, hn, -, -, -, -, -⟩ := outlook_eq_iff.1 h.outlook
  have hc := h.close.words (s.close.scanner.words.reset) (t.close.scanner.words.reset)
  obtain ⟨hl', hn', hp, hs, -, ha, hi⟩ := outlook_eq_iff.1 hc.outlook
  unfold Session.abort
  rw [hl, hn]
  refine ⟨rfl, rfl, ⟨hc.left.1, hc.left.2, hc.left.3, nofun⟩,
    ⟨hc.right.1, hc.right.2, hc.right.3, nofun⟩, ?_⟩
  rw [outlook_eq_iff]
  exact ⟨hl', hn', hp, hs, rfl, ha, hi⟩

/-! ## A turn without the scan task -/

/-- Two sessions have done the same, and go on the same. -/
structure Matches (a b : List Event × α × Session) : Prop where
  events : noted a.1 = noted b.1
  result : a.2.1 = b.2.1
  agrees : a.2.2.Agrees b.2.2

theorem Agrees.receive (h : s.Agrees t) (hs : s.handoff = none) (ht : t.handoff = none)
    (text : String) (last : Bool) : (s.receive text last).Agrees (t.receive text last) := by
  obtain ⟨-, hn, hp, -, -, -, -⟩ := outlook_eq_iff.1 h.outlook
  refine ⟨h.left.receive text last, h.right.receive text last, ?_⟩
  rw [outlook_receive hs, outlook_receive ht, hn, hp, outlook_append h]

theorem Agrees.answered (h : s.Agrees t) (hs : s.handoff = none) (ht : t.handoff = none)
    (retries : Nat) (a : Answer) :
    Matches (s.answered retries a) (t.answered retries a) := by
  obtain ⟨hl, hn, -, -, -, -, -⟩ := outlook_eq_iff.1 h.outlook
  unfold Session.answered
  rw [hl, hn]
  cases a with
  | line text => exact ⟨rfl, rfl, h.receive hs ht text false⟩
  | retry => exact ⟨rfl, rfl, h⟩
  | cancelled => exact ⟨rfl, rfl, h⟩
  | eof rest => exact ⟨rfl, rfl, h.receive hs ht rest true⟩
  | fatal rest reason => exact ⟨rfl, rfl, h.receive hs ht rest true⟩

theorem Agrees.called (h : s.Agrees t) (supplier : Supplier) :
    (s.called supplier).Agrees (t.called supplier) := by
  refine Agrees.sendAll ⟨?_, ?_, ?_⟩ supplier.ask.1.signals
  · exact ⟨h.left.cursor, h.left.abandoned, h.left.opened, h.left.idle⟩
  · exact ⟨h.right.cursor, h.right.abandoned, h.right.opened, h.right.idle⟩
  · exact congrArg (fun o : Outlook => { o with supplier := some supplier.ask.2 }) h.outlook

theorem Agrees.ask (h : s.Agrees t) (hs : s.handoff = none) (ht : t.handoff = none)
    (retries : Nat) (supplier : Supplier) :
    Matches (s.ask retries supplier) (t.ask retries supplier) := by
  obtain ⟨hl, hn, -, -, -, -, -⟩ := outlook_eq_iff.1 h.outlook
  have hc := h.called supplier
  cases ha : supplier.ask.1.answer with
  | some a =>
    rw [ask_of_some ha, ask_of_some ha, hl, hn]
    have hm := hc.answered ((handoff_called supplier s).trans hs)
      ((handoff_called supplier t).trans ht) retries a
    refine ⟨?_, hm.result, hm.agrees⟩
    have he := hm.events
    unfold noted at he ⊢
    simp only [List.filter_cons, he]
  | none =>
    obtain ⟨-, -, -, hsig, -, -, -⟩ := outlook_eq_iff.1 hc.outlook
    rw [ask_of_none ha, ask_of_none ha, hl, hn, hsig]
    exact ⟨rfl, rfl, hc⟩

theorem Agrees.heed (h : s.Agrees t) (retries : Nat) (signal : Signal) :
    Matches (s.heed retries signal) (t.heed retries signal) := by
  obtain ⟨hl, -, -, -, -, -, -⟩ := outlook_eq_iff.1 h.outlook
  unfold Session.heed
  cases signal with
  | interrupt =>
    simp only [hl]
    exact ⟨rfl, rfl, h⟩
  | shutdown =>
    simp only [hl]
    exact ⟨rfl, rfl, h.close⟩

/-! ## Reading on -/

theorem Matches.pull {retries : Nat} (h : Matches (s.turn retries) (t.turn retries))
    (hp : ∀ n, (s.turn retries).2.1 = .again n →
      Matches ((s.turn retries).2.2.pull n) ((t.turn retries).2.2.pull n)) :
    Matches (s.pull retries) (t.pull retries) := by
  obtain ⟨he, hr, ha⟩ := h
  rcases hs : s.turn retries with ⟨es, r, s'⟩
  rcases ht : t.turn retries with ⟨fs, r', t'⟩
  rw [hs, ht] at he hr ha hp
  simp only at he hr ha hp
  subst hr
  cases r with
  | done p =>
    rw [pull_of_done hs, pull_of_done ht]
    exact ⟨he, rfl, ha⟩
  | again n =>
    rw [pull_of_again hs, pull_of_again ht]
    obtain ⟨he', hr', ha'⟩ := hp n rfl
    refine ⟨?_, hr', ha'⟩
    rw [noted_append, noted_append, he, he']

theorem Waits.of_outlook (h : s.Waits) (ho : t.outlook = s.outlook) : t.Waits := by
  obtain ⟨-, -, -, hs, hf, ha, -⟩ := outlook_eq_iff.1 ho
  exact ⟨hf.trans h.failure, hs.trans h.signals, ha.trans h.alive⟩

/-- A token that is still to come is the next one, however many turns it takes. -/
theorem pull_token (h : s.Sound) (hw : s.Waits) {k : Token} {ks : List Token}
    (hc : s.coming = k :: ks) (retries : Nat) :
    noted (s.pull retries).1 = [] ∧ (s.pull retries).2.1 = .token k ∧
      (s.pull retries).2.2.Sound ∧
      (s.pull retries).2.2.outlook =
        { s.outlook with input := some (ks, s.scanner.behind.standing) } := by
  induction he : s.effort using Nat.strongRecOn generalizing s with
  | ind n ih =>
    have hh : s.handoff.isSome = true := by
      rcases ho : s.handoff with _ | o
      · rw [h.coming_eq_nil hw.alive ho] at hc
        cases hc
      · rfl
    have ht := turn_of_handoff hw hh retries
    have hlt := await_effort_lt hh retries
    obtain ⟨hes, hsound, hr⟩ := await_spec h hw.alive hh retries
    rcases ha : s.await retries with ⟨es, r, t⟩
    rw [ha] at ht hlt hes hsound hr
    rcases hr with ⟨k', ks', hr, hc', ho⟩ | ⟨hr, ho⟩
    · simp only at hr
      rw [hc] at hc'
      cases hc'
      subst hr
      rw [pull_of_done ht]
      exact ⟨hes, rfl, hsound, ho⟩
    · simp only at hr ho
      subst hr
      have hwt := hw.of_outlook ho
      obtain ⟨hct, hbt⟩ := input_of_outlook ho hwt.alive
      have hp := ih _ (he ▸ hlt) hsound hwt (hct.trans hc) rfl
      rw [ho, hbt] at hp
      rw [pull_of_again ht]
      refine ⟨?_, hp.2⟩
      rw [noted_append, hes, hp.1]
      rfl

theorem pull_idle (h : s.Sound) (hw : s.Waits) (hc : s.coming = []) (retries : Nat) :
    ∃ (es : List Event) (t : Session), noted es = [] ∧ t.Sound ∧ t.outlook = s.outlook ∧
      t.handoff = none ∧ t.effort ≤ s.effort ∧
      s.pull retries = (es ++ (t.pull retries).1, (t.pull retries).2) := by
  induction he : s.effort using Nat.strongRecOn generalizing s with
  | ind n ih =>
    rcases ho : s.handoff with _ | o
    · exact ⟨[], s, rfl, h, rfl, ho, Nat.le_of_eq he, rfl⟩
    · have hh : s.handoff.isSome = true := by rw [ho]; rfl
      have ht := turn_of_handoff hw hh retries
      have hlt := await_effort_lt hh retries
      obtain ⟨hes, hsound, hr⟩ := await_spec h hw.alive hh retries
      rcases ha : s.await retries with ⟨es, r, u⟩
      rw [ha] at ht hlt hes hsound hr
      rcases hr with ⟨k, ks, -, hc', -⟩ | ⟨hr, ho'⟩
      · rw [hc] at hc'
        cases hc'
      · simp only at hr ho' hlt hsound
        subst hr
        have hwu := hw.of_outlook ho'
        obtain ⟨hcu, -⟩ := input_of_outlook ho' hwu.alive
        obtain ⟨fs, t, hfs, hst, hot, hnt, hle, hp⟩ := ih _ (he ▸ hlt) hsound hwu (hcu.trans hc) rfl
        refine ⟨es ++ fs, t, ?_, hst, hot.trans ho', hnt, by omega, ?_⟩
        · rw [noted_append, hes, hfs]
          rfl
        · rw [pull_of_again ht, hp, List.append_assoc]

theorem Agrees.with_signals (h : s.Agrees t) (signals : List Signal) :
    Agrees { s with signals } { t with signals } := by
  refine ⟨?_, ?_, ?_⟩
  · exact ⟨h.left.cursor, h.left.abandoned, h.left.opened, h.left.idle⟩
  · exact ⟨h.right.cursor, h.right.abandoned, h.right.opened, h.right.idle⟩
  · exact congrArg (fun o : Outlook => { o with signals }) h.outlook

theorem Agrees.turn (h : s.Agrees t)
    (hn : ¬ s.Waits ∨ s.handoff = none ∧ t.handoff = none) (retries : Nat) :
    Matches (s.turn retries) (t.turn retries) := by
  obtain ⟨-, -, hp, hs, hf, ha, -⟩ := outlook_eq_iff.1 h.outlook
  cases s.finds with
  | failure hfs =>
    rw [turn_of_failure hfs, turn_of_failure (hf ▸ hfs)]
    exact ⟨rfl, rfl, h⟩
  | @signal signal later hfs hss =>
    rw [turn_of_signal hfs hss, turn_of_signal (hf ▸ hfs) (hs ▸ hss)]
    exact (h.with_signals later).heed retries signal
  | dead hfs hss has =>
    rw [turn_of_dead hfs hss has, turn_of_dead (hf ▸ hfs) (hs ▸ hss) (ha ▸ has)]
    exact ⟨rfl, rfl, h⟩
  | task hw hh =>
    rcases hn with hn | ⟨hns, -⟩
    · exact absurd hw hn
    · simp [hns] at hh
  | @supplier supplier hw _ hps =>
    rcases hn with hn | ⟨hns, hnt⟩
    · exact absurd hw hn
    · have hwt := hw.of_outlook h.outlook.symm
      rw [turn_of_supplier hw hns hps, turn_of_supplier hwt hnt (hp ▸ hps)]
      exact h.ask hns hnt retries supplier
  | nothing hw _ hps =>
    rcases hn with hn | ⟨hns, hnt⟩
    · exact absurd hw hn
    · have hwt := hw.of_outlook h.outlook.symm
      rw [turn_of_no_supplier hw hns hps, turn_of_no_supplier hwt hnt (hp ▸ hps)]
      exact ⟨rfl, rfl, h⟩

/-- However far the scan tasks have run, the reader comes back with the same. -/
theorem Agrees.pull (h : s.Agrees t) (retries : Nat) :
    Matches (s.pull retries) (t.pull retries) := by
  induction he : s.effort using Nat.strongRecOn generalizing s t retries with
  | ind n ih =>
    -- A turn after which the reader goes on leaves less to do, in each of the two sessions.
    have hon {u v : Session} (hu : u.effort ≤ s.effort)
        (hm : Matches (u.turn retries) (v.turn retries)) :
        Matches (u.pull retries) (v.pull retries) := by
      refine hm.pull fun m hr => ?_
      have hlt := turn_effort_lt retries u (by rw [hr]; rfl)
      exact ih _ (by omega) hm.agrees m rfl
    by_cases hw : s.Waits
    · have hwt := hw.of_outlook h.outlook.symm
      obtain ⟨hc, hb⟩ := input_of_outlook h.outlook hw.alive
      rcases hcs : s.coming with _ | ⟨k, ks⟩
      · obtain ⟨es, u, hes, hu, hou, hnu, hle, hpu⟩ := pull_idle h.left hw hcs retries
        obtain ⟨fs, v, hfs, hv, hov, hnv, -, hpv⟩ := pull_idle h.right hwt (hc ▸ hcs) retries
        have hag : u.Agrees v := ⟨hu, hv, (hou.trans h.outlook).trans hov.symm⟩
        obtain ⟨he', hr', ha'⟩ := hon hle (hag.turn (.inr ⟨hnu, hnv⟩) retries)
        rw [hpu, hpv]
        refine ⟨?_, hr', ha'⟩
        rw [noted_append, noted_append, hes, hfs, he']
      · obtain ⟨hes, hrs, hss, hos⟩ := pull_token h.left hw hcs retries
        obtain ⟨het, hrt, hst, hot⟩ := pull_token h.right hwt (hc ▸ hcs) retries
        refine ⟨hes.trans het.symm, hrs.trans hrt.symm, hss, hst, ?_⟩
        rw [hos, hot, h.outlook, hb]
    · exact hon (Nat.le_refl _) (h.turn (.inl hw) retries)

end ShellTokens.Session
