import ShellTokens.Proofs.Session.HandsOver

/-!
# One token ahead

What the scanner of a live session has emitted is what its reader has got, and then at most one
token that is held.
-/

namespace ShellTokens

open Scanner (Action)

namespace Session

variable {s : Session}

theorem Sound.next_of_held (h : s.Sound) (ha : s.alive = true) (hu : s.Unended) {k : Token}
    (hk : s.held? = some k) :
    s.next.2.1 = .token (if .interrupt ∈ s.signals then .interrupt else k) := by
  obtain ⟨hf, hsh⟩ := hu
  by_cases hi : .interrupt ∈ s.signals
  · rw [if_pos hi]
    exact (pull_of_interrupt hf hi 0).1
  · rw [if_neg hi]
    have hs : s.signals = [] := by
      refine List.eq_nil_iff_forall_not_mem.2 fun x hx => ?_
      cases x with
      | interrupt => exact hi hx
      | shutdown => exact hsh hx
    have hc : s.coming = k :: s.scanner.emissions.map Emission.toToken := by
      rw [coming, hk]
      rfl
    exact (pull_token h ⟨hf, hs, ha⟩ hc 0).2.1

end Session

namespace Host

variable {α : Type} {g h : Host α} {s t : Session}

/-- The step throws no input away and does not start over with the first words. -/
def Step.carriesOn : Step α → Bool
  | .discard | .activate | .reset => false
  | _ => true

def stepDeeds (step : Step α) (s : Session) : List Action :=
  match step with
  | .next | .lex => s.pullDeeds 0
  | .drain => s.drainDeeds
  | .feed text => if (s.feed text).1 = none then [.append (Text.bytes text)] else []
  | .settle => s.settleDeeds
  | _ => []

def deeds : List (Step α) → Host α → List Action
  | [], _ => []
  | step :: later, h =>
    (h.session.map (stepDeeds step)).getD [] ++ deeds later (h.perform step).2.2

theorem handsOver_feed (text : String) (s : Session) :
    s.HandsOver (if (s.feed text).1 = none then [.append (Text.bytes text)] else []) []
      (s.feed text).2 := by
  unfold Session.feed
  split
  · exact s.handsOver_refl
  · split
    · exact s.handsOver_refl
    · split
      · next o ho =>
        refine ⟨id, fun _ => id, fun _ => rfl, fun _ => ?_⟩
        unfold Session.held?
        rw [ho]
        exact List.append_nil _
      · next ho =>
        refine ⟨id, fun _ => id, fun _ => rfl, fun _ => ?_⟩
        rw [Session.held?_of_handoff ho]
        rfl

theorem handsOver_act (hs : g.session = some s) (h : s.Sound) (hg : s.Genuine) {step : Step α}
    (hc : step.carriesOn = true) (ht : (act step s g).2.2.session = some t) :
    s.HandsOver (stepDeeds step s) (Note.scanned (stepNotes step s)) t := by
  have hsame (hst : some s = some t) : s.HandsOver [] [] t := by
    cases hst
    exact s.handsOver_refl
  cases step with
  | next =>
    cases ht
    exact Session.handsOver_pull h hg 0
  | lex =>
    cases ht
    unfold stepNotes
    have hend : Note.scanned (if s.next.2.1 = .nothing then [.returned .endOfInput] else []) =
        [] := by
      split <;> rfl
    rw [Note.scanned_append, hend, List.append_nil]
    exact Session.handsOver_pull h hg 0
  | drain =>
    cases ht
    exact Session.handsOver_drain h hg
  | feed text =>
    cases ht
    have hnone : Note.scanned (stepNotes (.feed text : Step α) s) = [] := by
      unfold stepNotes
      simp only
      split <;> rfl
    rw [hnone]
    exact handsOver_feed text s
  | settle =>
    cases ht
    exact Session.handsOver_settle h
  | probe line => exact hsame (hs.symm.trans ht)
  | label => exact hsame (hs.symm.trans ht)
  | submit value => exact hsame (hs.symm.trans ((session_submit value g).symm.trans ht))
  | send signal =>
    cases ht
    cases signal with
    | interrupt =>
      refine Session.handsOver_of_same rfl rfl id fun _ hu => ⟨hu.1, ?_⟩
      simpa [Session.send] using hu.2
    | shutdown => exact Session.handsOver_of_dead rfl
  | abort message =>
    cases ht
    exact Session.handsOver_of_dead rfl
  | shutdown =>
    cases ht
    exact Session.handsOver_of_dead rfl
  | drop => cases ht
  | discard => cases hc
  | activate => cases hc
  | reset => cases hc

theorem handsOver_after (hs : g.session = some s) (h : s.Sound) (hg : s.Genuine)
    {steps : List (Step α)} (hc : steps.all Step.carriesOn = true)
    (ht : (g.after steps).session = some t) :
    s.HandsOver (g.deeds steps) (Note.scanned (g.record steps)) t := by
  induction steps generalizing g s with
  | nil =>
    cases hs.symm.trans ht
    exact Session.handsOver_refl _
  | cons step later ih =>
    rw [List.all_cons, Bool.and_eq_true] at hc
    have ht : ((g.perform step).2.2.after later).session = some t := ht
    cases hu : (g.perform step).2.2.session with
    | none => cases (session_after hu later).symm.trans ht
    | some u =>
      have hus := hu
      rw [perform_eq hs] at hus
      have hd : step ≠ .drop := by
        rintro rfl
        cases hus
      obtain ⟨u', hu', hgu, -⟩ := act_balanced hs hg hd
      cases hus.symm.trans hu'
      have hsu : u.Sound := sound_perform hs h hu
      unfold deeds record
      rw [hs, Note.scanned_append]
      exact (handsOver_act hs h hg hc.1 hus).trans (ih hu hsu hgu hc.2 ht)

/-- A live session has scanned what its reader has got, and one token more exactly if it holds one.
That is what the reader gets next, unless an interrupt waits. The first word is that of all that has
been scanned. -/
theorem emitted_start (o : Options) (supplier : Option Supplier)
    (accepts : Option (List α → Bool)) (steps : List (Step α))
    (hc : steps.all Step.carriesOn = true) (s : Session)
    (hs : ((start o supplier accepts).after steps).session = some s) (ha : s.alive = true) :
    let h := start o supplier accepts
    let r := (Scanner.fresh o.interactive).handle (h.deeds steps)
    let emitted := r.1.map (·.1.toToken)
    let returned := Note.scanned (h.record steps)
    Note.tokens (h.record steps) = (h.outcomes steps).flatMap Outcome.tokens ∧
      r.2 = s.scanner ∧
      emitted = returned ++ s.held?.toList ∧
      emitted.length = returned.length + (if s.held?.isSome then 1 else 0) ∧
      (∀ k, s.held? = some k →
        s.next.2.1 = .token (if .interrupt ∈ s.signals then .interrupt else k)) ∧
      s.firstWord? =
        (emitted.foldl (fun w t => w.observe t) (Scanner.fresh o.interactive).words).word? := by
  intro h r emitted returned
  have hsound : s.Sound := (reachable_after_start o supplier accepts steps hs).sound
  have hover : (Session.start o supplier).HandsOver (h.deeds steps) returned s :=
    handsOver_after rfl (Session.sound_start o supplier) (Session.genuine_of_not_held rfl) hc hs
  have hunended : s.Unended := hover.unended ha ⟨rfl, nofun⟩
  have hscanner : r.2 = s.scanner := (hover.scanner ha).symm
  have hemitted : emitted = returned ++ s.held?.toList := hover.tokens ha
  refine ⟨tokens_record steps h, hscanner, hemitted, ?_, fun k hk => ?_, ?_⟩
  · rw [hemitted, List.length_append]
    cases s.held? <;> rfl
  · exact hsound.next_of_held ha hunended hk
  · obtain ⟨-, hw⟩ := Scanner.handle_words (h.deeds steps) (Scanner.fresh o.interactive)
    rw [Session.firstWord?, ← hscanner, hw, List.foldl_map, List.foldl_map]
    simp only [Emission.noted_eq]
    rfl

theorem emitted_broken_off :
    let supplier : Supplier := ⟨[⟨[.interrupt], some (.line "b ( c \\\n")⟩, ⟨[], some .retry⟩,
      ⟨[], some .cancelled⟩, ⟨[], none⟩, ⟨[.interrupt], some (.fatal "d: e" "gone")⟩]⟩
    let steps : List (Step Nat) := [.feed "a |", .settle, .next, .feed "& ", .send .interrupt,
      .drain, .probe "x", .next, .settle, .next, .next, .next, .settle, .send .interrupt]
    let h := start { interactive := true } (some supplier) none
    steps.all Step.carriesOn = true ∧
      ∃ s, (h.after steps).session = some s ∧ s.alive = true ∧
        s.held? = some ⟨.symbol, "e"⟩ ∧ s.next.2.1 = .token .interrupt ∧
        ((Scanner.fresh true).handle (h.deeds steps)).1.length =
          (Note.scanned (h.record steps)).length + 1 ∧
        s.firstWord? = some "e" := by
  -- A call is broken off, one is repeated and one is cancelled, and the last text is broken. The
  -- reader has got an error and interrupts that the scanner knows nothing of, and one more waits.
  intro supplier steps h
  have hc : steps.all Step.carriesOn = true := rfl
  have hany : (h.after steps).session.any (fun s => s.alive = true ∧
      s.held? = some ⟨.symbol, "e"⟩ ∧ .interrupt ∈ s.signals ∧
      s.firstWord? = some "e") = true := by decide +kernel
  obtain ⟨s, hs, hp⟩ := (Option.any_eq_true _ _).1 hany
  obtain ⟨ha, hheld, hsig, hword⟩ := of_decide_eq_true hp
  obtain ⟨-, -, -, hlen, hnext, -⟩ :=
    emitted_start { interactive := true } (some supplier) none steps hc s hs ha
  refine ⟨hc, s, hs, ha, hheld, ?_, ?_, hword⟩
  · rw [hnext _ hheld, if_pos hsig]
  · rw [List.length_map, hheld] at hlen
    exact hlen

end Host

end ShellTokens
