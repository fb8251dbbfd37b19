import ShellTokens.Proofs.Session.Reachable
import ShellTokens.Proofs.Session.ReadOut

/-!
# What a probe foretells

A probe of a line gives the tokens that the session gives when it is fed the line, and ends where
the session then is. Whatever is done with the probe, the session does not notice.
-/

namespace ShellTokens

/-! ## What a parser does with a probe -/

namespace Probe

inductive Step where
  | next
  /-- Asks for a token in any case. -/
  | lex
  | abort (message : String)
  | submit
  /-- Whether the line is complete shows at its end, so the probe goes there. -/
  | isComplete

inductive Outcome where
  | pulled (t : Option Token)
  | failed (f : Failure)
  | accepted (goOn : Bool)
  | complete (yes : Bool)

def perform (step : Step) (p : Probe) : Outcome × Probe :=
  match step with
  | .next =>
    let r := p.next
    (.pulled (r.1.map Emission.toToken), r.2)
  | .lex =>
    let r := p.next
    (.pulled (some ((r.1.map Emission.toToken).getD .endOfInput)), r.2)
  | .abort message => (.failed (p.abort message), p)
  | .submit => (.accepted p.submit, p)
  | .isComplete => (.complete p.isComplete, p.drain.2)

def after (steps : List Step) (p : Probe) : Probe :=
  steps.foldl (fun p step => (p.perform step).2) p

/-- Asked again and again, the probe gives these tokens and then no more, and is `last` then. -/
def Gives (last : Probe) : List Token → Probe → Prop
  | [], p => p.perform .next = (.pulled none, last)
  | t :: ts, p => (p.perform .next).1 = .pulled (some t) ∧ Gives last ts (p.perform .next).2

theorem drain_next (p : Probe) :
    p.drain.1 = p.next.1.toList ++ p.next.2.drain.1 ∧ p.next.2.drain.2 = p.drain.2 := by
  obtain ⟨scanner, held, label, lines⟩ := p
  cases held with
  | some t => exact ⟨rfl, rfl⟩
  | none =>
    refine ⟨scanner.emissions_scan, ?_⟩
    exact congrArg (fun s : Scanner => Probe.mk s none label lines) scanner.behind_scan

theorem drain_of_next_none {p : Probe} (h : p.next.1 = none) : p.drain = ([], p.next.2) := by
  obtain ⟨scanner, held, label, lines⟩ := p
  cases held with
  | some t => cases h
  | none =>
    have hs : scanner.scan = (none, scanner.scan.2) := Prod.ext h rfl
    unfold drain next
    simp only [Scanner.drain_of_scan_none hs]
    rfl

theorem gives_drain (p : Probe) : p.drain.2.Gives (p.drain.1.map Emission.toToken) p := by
  induction he : p.drain.1 generalizing p with
  | nil =>
    cases h : p.next.1 with
    | none =>
      rw [drain_of_next_none h]
      show (Outcome.pulled (p.next.1.map Emission.toToken), p.next.2) = _
      rw [h]
      rfl
    | some e =>
      have hn := (drain_next p).1
      rw [he, h] at hn
      cases hn
  | cons e es ih =>
    cases h : p.next.1 with
    | none =>
      rw [drain_of_next_none h] at he
      cases he
    | some e' =>
      have hn := (drain_next p).1
      rw [he, h] at hn
      obtain ⟨rfl, hrest⟩ := List.cons.inj hn
      rw [← (drain_next p).2]
      refine ⟨?_, ih p.next.2 hrest.symm⟩
      show Outcome.pulled (p.next.1.map Emission.toToken) = _
      rw [h]
      rfl

theorem drain_perform (step : Step) (p : Probe) : (p.perform step).2.drain.2 = p.drain.2 := by
  cases step with
  | next => exact (drain_next p).2
  | lex => exact (drain_next p).2
  | abort message => rfl
  | submit => rfl
  | isComplete =>
    have hb : p.scanner.behind.behind = p.scanner.behind := by
      rw [Scanner.behind, Scanner.drain_behind]
    exact congrArg (fun s : Scanner => Probe.mk s none p.label p.lines) hb

theorem drain_after (steps : List Step) (p : Probe) : (p.after steps).drain.2 = p.drain.2 := by
  induction steps generalizing p with
  | nil => rfl
  | cons step later ih => exact (ih _).trans (drain_perform step p)

end Probe

/-! ## A session that is fed the line -/

namespace Session

variable {s : Session}

/-- The reader of a session that is fed the line gets what the probe gives, and pauses where the
probe ends. -/
theorem foretold (h : s.Sound) (hw : s.Waits) (line : String) :
    (s.feed line).1 = none ∧
      (s.feed line).2.readOut.1 = (s.probe line).drain.1.map Emission.toToken ∧
      (s.feed line).2.PausesAt (s.feed line).2.readOut.2 ∧
      (s.feed line).2.readOut.2.scanner = (s.probe line).drain.2.scanner := by
  have hfed : (s.feed line).2.Waits ∧ (s.feed line).2.isIdle = false ∧
      (s.feed line).2.scanner = (s.append line).scanner := by
    unfold feed
    rw [hw.failure, hw.alive]
    cases hh : s.handoff with
    | none => exact ⟨⟨hw.failure, hw.signals, hw.alive⟩, rfl, rfl⟩
    | some o =>
      refine ⟨⟨hw.failure, hw.signals, hw.alive⟩, ?_, rfl⟩
      simp [isIdle]
  obtain ⟨hwf, hbusy, hscan⟩ := hfed
  obtain ⟨hr, ho⟩ := outlook_feed s line hw.failure hw.alive
  obtain ⟨hk, hp⟩ := readOut_of_waits (h.feed line) hwf
  refine ⟨hr, ?_, hp, ?_⟩
  · rw [hk, probe_tokens]
    exact (input_of_outlook ho hwf.alive).1
  · rw [hp.scanner (rests_of_not_idle hbusy), hscan]
    rfl

end Session

/-! ## Probes beside the session -/

/-- A host with the probes that it has been given so far. -/
structure Workbench (α : Type) where
  host : Host α
  probes : List Probe := []

namespace Workbench

variable {α : Type}

inductive Step (α : Type) where
  | host (step : Host.Step α)
  | probe (place : Nat) (step : Probe.Step)

def Step.ofHost? : Step α → Option (Host.Step α)
  | .host step => some step
  | .probe .. => none

def given : Host.Outcome → List Probe
  | .probed p => [p]
  | _ => []

def perform (step : Step α) (w : Workbench α) : Option Host.Outcome × Workbench α :=
  match step with
  | .host step =>
    let r := w.host.perform step
    (some r.2.1, { host := r.2.2, probes := w.probes ++ given r.2.1 })
  | .probe place step =>
    (none, { w with probes := w.probes.modify place fun p => (p.perform step).2 })

def after (steps : List (Step α)) (w : Workbench α) : Workbench α :=
  steps.foldl (fun w step => (w.perform step).2) w

def outcomes : List (Step α) → Workbench α → List Host.Outcome
  | [], _ => []
  | step :: later, w => (w.perform step).1.toList ++ outcomes later (w.perform step).2

theorem without_probes (steps : List (Step α)) (w : Workbench α) :
    (w.after steps).host = w.host.after (steps.filterMap Step.ofHost?) ∧
      w.outcomes steps = w.host.outcomes (steps.filterMap Step.ofHost?) := by
  induction steps generalizing w with
  | nil => exact ⟨rfl, rfl⟩
  | cons step later ih =>
    obtain ⟨hh, ho⟩ := ih (w.perform step).2
    cases step with
    | host step => exact ⟨hh, congrArg (List.cons _) ho⟩
    | probe place step => exact ⟨hh, ho⟩

end Workbench

namespace Host

variable {α : Type}

/-- In any session where only the input decides what comes next, a probe foretells what comes when
the session is fed the line, up to where the reader asks for more or has no more. -/
theorem probe_foretells (h : Host α) (s : Session) (hs : h.session = some s) (hr : s.Reachable)
    (hw : s.Waits) (line : String) :
    let p := s.probe line
    let fed := s.feed line
    let paused := fed.2.readOut.2
    fed.1 = none ∧ paused.pauses = true ∧ paused.Waits ∧
      fed.2.drain.2.1.map (·.token) = fed.2.readOut.1 ++ paused.drain.2.1.map (·.token) ∧
      fed.2.drain.2.2 = paused.drain.2.2 ∧
      (∃ last : Probe, last.Gives fed.2.readOut.1 p ∧ last.firstWord? = paused.firstWord?) ∧
      (∀ deeds, ((p.after deeds).perform .isComplete).1 = .complete paused.scanner.isSettled) ∧
      ∀ later : List (Workbench.Step α),
        let w := (({ host := h } : Workbench α).perform (.host (.probe line))).2
        w.probes = [p] ∧ (w.after later).host = h.after (later.filterMap Workbench.Step.ofHost?) ∧
          w.outcomes later = h.outcomes (later.filterMap Workbench.Step.ofHost?) := by
  intro p fed paused
  obtain ⟨hf, hk, hp, hsc⟩ := Session.foretold hr.sound hw line
  obtain ⟨hdk, hde, -⟩ := fed.2.drain_readOut
  refine ⟨hf, fed.2.pauses_readOut, hp.waits, hdk, hde, ⟨p.drain.2, ?_, ?_⟩, ?_, ?_⟩
  · show p.drain.2.Gives fed.2.readOut.1 p
    rw [hk]
    exact p.gives_drain
  · exact congrArg (fun s : Scanner => s.words.word?) hsc.symm
  · intro deeds
    show Probe.Outcome.complete (p.after deeds).drain.2.scanner.isSettled = _
    rw [p.drain_after deeds]
    exact congrArg (fun s : Scanner => Probe.Outcome.complete s.isSettled) hsc.symm
  · intro later w
    have hprobe : h.perform (.probe line) = ([], .probed p, h) := by
      unfold perform
      rw [hs]
      rfl
    have hw : w = { host := h, probes := [p] } := by
      show Workbench.mk (h.perform (.probe line)).2.2
        ([] ++ Workbench.given (h.perform (.probe line)).2.1) = _
      rw [hprobe]
      rfl
    rw [hw]
    exact ⟨rfl, Workbench.without_probes later _⟩

theorem foretells_group :
    let h : Host Nat := (start { interactive := true } none none).after
      [.feed "echo (a", .next, .settle]
    ∃ s, h.session = some s ∧ s.held? = some ⟨.openParen, "("⟩ ∧ s.Reachable ∧ s.Waits ∧
      (∃ last : Probe, last.Gives (s.feed ")\n").2.readOut.1 (s.probe ")\n") ∧
        last.firstWord? = (s.feed ")\n").2.readOut.2.firstWord?) ∧
      (((s.probe ")\n").after [.next, .lex]).perform .isComplete).1 =
        .complete (s.feed ")\n").2.readOut.2.scanner.isSettled := by
  -- The session holds a token back, and has not yet scanned what was fed after it.
  intro h
  have hany : h.session.any (fun s => s.held? = some ⟨.openParen, "("⟩ ∧ s.failure = none ∧
      s.signals = [] ∧ s.alive = true) = true := by decide +kernel
  obtain ⟨s, hs, hp⟩ := (Option.any_eq_true _ _).1 hany
  obtain ⟨hheld, hf, hsig, hal⟩ := of_decide_eq_true hp
  have hr : s.Reachable := reachable_after_start _ _ _ _ hs
  have hw : s.Waits := ⟨hf, hsig, hal⟩
  obtain ⟨-, -, -, -, -, hgives, hset, -⟩ := probe_foretells h s hs hr hw ")\n"
  exact ⟨s, hs, hheld, hr, hw, hgives, hset [.next, .lex]⟩

end Host

end ShellTokens
