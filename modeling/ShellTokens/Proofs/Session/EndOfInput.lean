import ShellTokens.Proofs.Session.RunsOut

/-!
# The end of the input

Once the supplier is at its end and the reader has no more tokens, all that can be finished has been
finished: nothing is under way, unless all of the text ends inside quotes or behind a backslash.
-/

namespace ShellTokens

open Event (endsInput any_of_noted_eq_nil)

namespace Host

variable {α : Type} {g h : Host α} {s t : Session} {step : Step α}

/-! ## A step -/

theorem takesIn_feed (h : s.Sound) (text : String) :
    s.TakesIn (if (s.feed text).1 = none then [.appended text] else []) (s.feed text).2 := by
  have hsame : s.TakesIn [] s :=
    Session.takesIn_of_readsTo h id (fun _ => Session.readsTo_of_same rfl rfl) rfl
  unfold Session.feed
  split
  · exact hsame
  · split
    · exact hsame
    · split
      · refine Session.takesIn_of_append h id ?_ ?_
        · exact congrArg s.scanner.append (List.append_nil _).symm
        · simp [Session.isIdle]
      · refine Session.takesIn_of_append h id ?_ rfl
        exact congrArg s.scanner.append (List.append_nil _).symm

theorem runsOut_settle (h : s.Sound) : s.RunsOut s.settle.1 [] s.settle.2 := by
  obtain ⟨hes, hu, -, -⟩ := s.settle_unasked
  have hin : s.TakesIn [] s.settle.2 :=
    Session.takesIn_of_readsTo h hu.alive (fun ha => Session.readsTo_settle h (hu.alive ha)) rfl
  have he := any_of_noted_eq_nil (p := endsInput) (fun _ _ => rfl) hes
  refine hin.runsOut hu.supplier (fun hh _ => ?_) he rfl nofun
  unfold Session.settle
  simp only [hh]

theorem runsOut_words (h : s.Sound) (w : FirstWords) :
    s.RunsOut [] [] { s with scanner := { s.scanner with words := w } } :=
  (Session.takesIn_words h w).runsOut rfl (fun hh _ => hh) rfl rfl nofun

theorem runsOut_act (hs : g.session = some s) (h : s.Sound) (hd : step ≠ .discard)
    (hf : ∀ text, step ≠ .feed text) (ht : (act step s g).2.2.session = some t) :
    s.RunsOut (act step s g).1 (stepNotes step s) t := by
  have hsame (hst : some s = some t) : s.RunsOut [] [] t := by
    cases hst
    exact Session.runsOut_of_same h rfl rfl rfl rfl rfl rfl nofun
  cases step with
  | next =>
    cases ht
    exact Session.runsOut_pull h 0
  | lex =>
    cases ht
    have hp := Session.runsOut_pull h 0
    have hst : s.next.2.2.Sound := Session.pull_keeps (fun retries _ h => h.turn retries) 0 h
    have hend : s.next.2.2.RunsOut []
        (if s.next.2.1 = .nothing then [.returned .endOfInput] else []) s.next.2.2 := by
      refine Session.runsOut_of_same hst rfl rfl rfl rfl rfl ?_ fun hm => ?_
      · split <;> rfl
      · revert hm
        split <;> simp
    have hall := hp.trans hend h hst
    rwa [List.append_nil] at hall
  | drain =>
    cases ht
    exact Session.runsOut_drain h
  | settle =>
    cases ht
    exact runsOut_settle h
  | activate =>
    cases ht
    exact runsOut_words h .fresh
  | reset =>
    cases ht
    exact runsOut_words h s.scanner.words.reset
  | probe line => exact hsame (hs.symm.trans ht)
  | label => exact hsame (hs.symm.trans ht)
  | submit value => exact hsame (hs.symm.trans ((session_submit value g).symm.trans ht))
  | send signal =>
    cases ht
    cases signal with
    | interrupt => exact Session.runsOut_of_same h rfl rfl rfl rfl rfl rfl nofun
    | shutdown => exact Session.runsOut_of_dead rfl rfl rfl rfl
  | abort message =>
    cases ht
    exact Session.runsOut_of_dead rfl rfl rfl rfl
  | shutdown =>
    cases ht
    exact Session.runsOut_of_dead rfl rfl rfl rfl
  | drop => cases ht
  | discard => exact absurd rfl hd
  | feed text => exact absurd rfl (hf text)

theorem takesIn_act (hs : g.session = some s) (h : s.Sound) (hd : step ≠ .discard)
    (ht : (act step s g).2.2.session = some t) : s.TakesIn (stepNotes step s) t := by
  by_cases hf : ∃ text, step = .feed text
  · obtain ⟨text, rfl⟩ := hf
    cases ht
    exact takesIn_feed h text
  · exact (runsOut_act hs h hd (fun text hst => hf ⟨text, hst⟩) ht).toTakesIn

/-! ## Steps one after the other -/

theorem record_append (steps later : List (Step α)) (h : Host α) :
    h.record (steps ++ later) = h.record steps ++ (h.after steps).record later := by
  induction steps generalizing h with
  | nil => rfl
  | cons step steps ih =>
    rw [List.cons_append, record, record, ih, List.append_assoc]
    rfl

/-- What relates the sessions before and after each step, and passes from step to step, relates the
sessions before and after a run. -/
theorem after_relates {R : Session → List Event → List Note → Session → Prop}
    {P : Step α → Prop} (refl : ∀ s : Session, s.Sound → R s [] [] s)
    (trans : ∀ {s t u : Session} {es fs : List Event} {notes more : List Note}, s.Sound → t.Sound →
      R s es notes t → R t fs more u → R s (es ++ fs) (notes ++ more) u)
    (act : ∀ {g : Host α} {s t : Session} {step : Step α}, g.session = some s → s.Sound → P step →
      (act step s g).2.2.session = some t → R s (Host.act step s g).1 (stepNotes step s) t)
    (hs : g.session = some s) (h : s.Sound) {steps : List (Step α)} (hp : ∀ step ∈ steps, P step)
    (ht : (g.after steps).session = some t) : R s (g.log steps) (g.record steps) t := by
  induction steps generalizing g s with
  | nil =>
    cases hs.symm.trans ht
    exact refl _ h
  | cons step later ih =>
    have ht : ((g.perform step).2.2.after later).session = some t := ht
    cases hu : (g.perform step).2.2.session with
    | none => cases (session_after hu later).symm.trans ht
    | some u =>
      have hsu : u.Sound := sound_perform hs h hu
      have hfirst : R s (g.perform step).1 (stepNotes step s) u := by
        rw [perform_eq hs] at hu ⊢
        exact act hs h (hp step List.mem_cons_self) hu
      have hlater := ih hu hsu (fun x hx => hp x (List.mem_cons_of_mem step hx)) ht
      unfold log record
      rw [hs]
      exact trans h hsu hfirst hlater

theorem takesIn_after (hs : g.session = some s) (h : s.Sound) {steps : List (Step α)}
    (hd : .discard ∉ steps) (ht : (g.after steps).session = some t) :
    s.TakesIn (g.record steps) t := by
  refine after_relates (R := fun s _ notes t => s.TakesIn notes t) (P := (· ≠ .discard)) ?_ ?_ ?_ hs
    h (fun step hm hst => hd (hst ▸ hm)) ht
  · exact fun s h => Session.takesIn_of_readsTo h id (fun _ => Session.readsTo_of_same rfl rfl) rfl
  · exact fun hs ht h h' => h.trans h' hs ht
  · exact fun hs h hd ht => takesIn_act hs h hd ht

theorem runsOut_after (hs : g.session = some s) (h : s.Sound) {steps : List (Step α)}
    (hd : .discard ∉ steps) (hf : ∀ text, .feed text ∉ steps)
    (ht : (g.after steps).session = some t) : s.RunsOut (g.log steps) (g.record steps) t := by
  refine after_relates (R := Session.RunsOut)
    (P := fun step => step ≠ .discard ∧ ∀ text, step ≠ .feed text) ?_ ?_ ?_ hs h ?_ ht
  · exact fun s h => Session.runsOut_of_same h rfl rfl rfl rfl rfl rfl nofun
  · exact fun hs ht h h' => h.trans h' hs ht
  · exact fun hs h hp ht => runsOut_act hs h hp.1 hp.2 ht
  · exact fun step hm => ⟨fun hst => hd (hst ▸ hm), fun text hst => hf text (hst ▸ hm)⟩

/-! ## At the end -/

theorem feed_ne_of_endsInput (he : (g.perform step).1.any endsInput = true) (text : String) :
    step ≠ .feed text := by
  rintro rfl
  revert he
  unfold perform
  split <;> nofun

/-- In some step the supplier has told that its input ends. From then on nothing is fed, and a
reader has come back without a token. All of the text has a line end behind it then, and nothing is
under way, unless the text without that line end ends inside quotes or behind a backslash. -/
theorem blank_after_endOfInput (o : Options) (supplier : Option Supplier)
    (accepts : Option (List α → Bool)) (before : List (Step α)) (step : Step α)
    (later : List (Step α)) (s : Session)
    (hd : .discard ∉ before ++ step :: later)
    (he : (((start o supplier accepts).after before).perform step).1.any endsInput = true)
    (hf : ∀ text, .feed text ∉ later)
    (hn : .ended ∈ ((start o supplier accepts).after before).record (step :: later))
    (hs : ((start o supplier accepts).after (before ++ step :: later)).session = some s)
    (ha : s.alive = true) :
    ∃ text, Note.input ((start o supplier accepts).record (before ++ step :: later)) =
        Text.bytes (text ++ "\n") ∧
      ((s.scanner.state = .blank ∧ s.scanner.cursor.pending = []) ↔
        ((Scanner.fresh o.interactive).append (Text.bytes text)).behind.state ∉
          [.singleQuoted, .doubleQuoted, .bangString, .afterBackslash]) := by
  have hsound := Session.sound_start o supplier
  have hin : (Session.start o supplier).TakesIn _ s := takesIn_after rfl hsound hd hs
  rw [after_append] at hs
  cases hu : ((start o supplier accepts).after before).session with
  | none => cases (session_after hu (step :: later)).symm.trans hs
  | some u =>
    have hus : u.Sound := (reachable_after_start o supplier accepts before hu).sound
    have hfeed : ∀ text, .feed text ∉ step :: later := fun text hm =>
      (List.mem_cons.1 hm).elim (fun hst => feed_ne_of_endsInput he text hst.symm) (hf text)
    have hout := runsOut_after hu hus (fun hm => hd (List.mem_append_right before hm)) hfeed hs
    obtain ⟨-, text, htext⟩ := hout.last (by rw [log, List.any_append, he, Bool.true_or])
    obtain ⟨first, hfirst⟩ := Note.exists_text ((start o supplier accepts).record before)
    have hinput : Note.input ((start o supplier accepts).record (before ++ step :: later)) =
        Text.bytes (first ++ text ++ "\n") := by
      rw [record_append, Note.input_append, hfirst, htext, String.append_assoc,
        Text.bytes_append first]
    refine ⟨first ++ text, hinput, ?_⟩
    -- No task is known, so the scanner is where it gets with all of the text.
    have hi : s.isIdle = true := by
      rw [Session.isIdle, (hout.ended hn ha).2]
      rfl
    have hrest : s.scanner.behind = s.scanner :=
      hin.rests ha (fun _ => Scanner.behind_of_halt (Scanner.step_of_empty rfl rfl)) hi
    have htwins := (hin.behind ha).twins_behind
    rw [hinput, hrest] at htwins
    have hp := htwins.cursor.pending
    have hst := htwins.state
    rw [List.append_nil] at hp
    rw [← Scanner.flushed_append_newline_iff, Scanner.Flushed, ← hst, ← hp]
    rfl

theorem blank_after_broken_off :
    let supplier : Supplier := ⟨[⟨[.interrupt], some (.line "b \\\n| 'c")⟩, ⟨[], some .retry⟩,
      ⟨[], some (.fatal "\nd' >" "gone")⟩]⟩
    let before : List (Step Nat) :=
      [.activate, .feed "a &", .settle, .next, .next, .next, .reset, .next, .next]
    let later : List (Step Nat) := [.settle, .probe "x", .send .interrupt, .drain, .label]
    let h := start { interactive := true } (some supplier) none
    let all := before ++ .next :: later
    .discard ∉ all ∧ ((h.after before).perform .next).1.any endsInput = true ∧
      (∀ text, .feed text ∉ later) ∧ .ended ∈ (h.after before).record (.next :: later) ∧
      ∃ s, (h.after all).session = some s ∧ s.alive = true ∧
        ∃ text, Note.input (h.record all) = Text.bytes (text ++ "\n") ∧
          ((s.scanner.state = .blank ∧ s.scanner.cursor.pending = []) ↔
            ((Scanner.fresh true).append (Text.bytes text)).behind.state ∉
              [.singleQuoted, .doubleQuoted, .bangString, .afterBackslash]) := by
  -- An interrupt comes in during a call, lines are joined and the first words start over. A
  -- quotation goes on in the last text, which ends within an operator.
  intro supplier before later h all
  have hd : .discard ∉ all := by decide
  have he : ((h.after before).perform .next).1.any endsInput = true := by decide +kernel
  have hf : ∀ text, .feed text ∉ later := by
    intro text hm
    simp [later] at hm
  have hn : .ended ∈ (h.after before).record (.next :: later) := by decide +kernel
  have hany : (h.after all).session.any (·.alive) = true := by decide +kernel
  obtain ⟨s, hs, ha⟩ := (Option.any_eq_true _ _).1 hany
  exact ⟨hd, he, hf, hn, s, hs, ha, blank_after_endOfInput { interactive := true } (some supplier)
    none before .next later s hd he hf hn hs ha⟩

end Host

end ShellTokens
