import ShellTokens.Proofs.Session.Reachable
import ShellTokens.Proofs.Session.ReadOut

/-!
# Lines from the supplier

A line that the supplier gives is scanned once its continued lines have been joined. A probe scans
a line as it is, so it has to be asked about the joined line.
-/

namespace ShellTokens.Session

variable {s t : Session} {supplier : Supplier} {signals : List Signal} {line : String}

theorem PausesAt.turn (h : s.PausesAt t) (hp : s.supplier = some supplier)
    (ha : supplier.ask.1 = ⟨signals, some (.line line)⟩) (hs : .shutdown ∉ signals)
    (retries : Nat) :
    t.turn retries = ([.requesting t.label (t.lines + 1)], .again 0,
      { t with supplier := some supplier.ask.2, signals }.receive line false) := by
  have hc : t.called supplier = { t with supplier := some supplier.ask.2, signals } := by
    unfold called
    rw [ha, sendAll_of_not_mem hs]
    simp only [h.waits.signals, List.nil_append]
  have hl : supplier.ask.1.answer = some (.line line) := by rw [ha]
  rw [turn_of_supplier h.waits h.handoff (h.supplier.trans hp), ask_of_some hl, hc]
  rfl

theorem isSettled_append (h : s.Sound) (ht : t.Sound) (hb : t.scanner.behind = s.scanner.behind)
    (line : String) : (t.append line).scanner.behind.isSettled = (s.probe line).isComplete := by
  have hs := Scanner.behind_append h.cursor (Text.bytes line)
  have hts := Scanner.behind_append ht.cursor (Text.bytes line)
  rw [hb] at hts
  exact (hts.symm.trans hs).twins_behind.isSettled

theorem isComplete_of_nothing (h : s.Sound) (hb : s.scanner.behind = s.scanner) :
    (s.probe "").isComplete = s.scanner.isSettled := by
  have ha : s.scanner.Alike (s.scanner.append []) := Scanner.lacks_append h.cursor []
  have hset := ha.drain.2.twins_behind.isSettled
  rw [hb] at hset
  exact hset.symm

/-- Once the reader has taken all that a line has brought, the session is settled just in case a
probe of the joined line has been complete. That is the line itself, if nothing in it is joined. -/
theorem isSettled_of_supplied (s : Session) (supplier : Supplier) (signals : List Signal)
    (line : String) (hr : s.Reachable) (hw : s.Waits) (hp : s.supplier = some supplier)
    (ha : supplier.ask.1 = ⟨signals, some (.line line)⟩) (hs : .shutdown ∉ signals)
    (retries : Nat) :
    let asking := s.readOut.2
    let answered := asking.turn retries
    let waiting := answered.2.2.readOut.2
    answered.1 = [.requesting s.label (s.lines + 1)] ∧ answered.2.1 = .again 0 ∧
      waiting.pauses = true ∧ waiting.Waits ∧
      waiting.scanner.isSettled = (s.probe (Text.joined line)).isComplete ∧
      (waiting.probe "").isComplete = waiting.scanner.isSettled ∧
      (¬ ['\\', '\n'] <:+: line.toList →
        waiting.scanner.isSettled = (s.probe line).isComplete) := by
  intro asking answered waiting
  obtain ⟨-, hask⟩ := readOut_of_waits hr.sound hw
  have hturn : answered = _ := hask.turn hp ha hs retries
  have hsound : answered.2.2.Sound := hask.sound.turn retries
  have hf : answered.2.2.failure = none ∧ answered.2.2.alive = true ∧
      answered.2.2.signals = signals ∧ answered.2.2.isIdle = false ∧
      answered.2.2.scanner = (asking.append (Text.joined line)).scanner := by
    rw [hturn]
    refine ⟨hask.waits.failure, hask.waits.alive, rfl, rfl, ?_⟩
    show asking.scanner.append (Text.bytes (Text.joined line ++ "")) = _
    rw [String.append_empty]
    rfl
  obtain ⟨hfail, halive, hsig, hbusy, hscan⟩ := hf
  obtain ⟨-, hwait⟩ := readOut_of_signals hsound hfail halive (hsig ▸ hs)
  have hend : waiting.scanner = answered.2.2.scanner.behind :=
    hwait.scanner (rests_of_not_idle hbusy)
  have hset : waiting.scanner.isSettled = (s.probe (Text.joined line)).isComplete := by
    rw [hend, hscan]
    exact isSettled_append hr.sound hask.sound hask.readsTo.behind (Text.joined line)
  refine ⟨?_, ?_, pauses_readOut _, hwait.waits, hset, ?_, ?_⟩
  · rw [hturn, hask.label, hask.lines]
  · rw [hturn]
  · apply isComplete_of_nothing hwait.sound
    rw [hwait.readsTo.behind, hend]
  · intro hl
    rw [hset, Text.joined_of_unbroken hl]

theorem isSettled_of_group :
    let supplier : Supplier := ⟨[⟨[.interrupt], some (.line "b)\n")⟩]⟩
    let s := ((start {} (some supplier)).feed "(a").2
    let waiting := (s.readOut.2.turn 0).2.2.readOut.2
    (s.probe "b)\n").isComplete = true ∧ waiting.scanner.isSettled = true := by
  intro supplier s waiting
  let h : Host Nat := Host.start {} (some supplier) none
  have hr : s.Reachable := .perform (h := h) (.feed "(a") rfl (.start {} (some supplier)) rfl
  have hw : s.Waits := ⟨rfl, rfl, rfl⟩
  have hc : (s.probe "b)\n").isComplete = true := by decide +kernel
  obtain ⟨-, -, -, -, -, -, hset⟩ :=
    isSettled_of_supplied s supplier [.interrupt] "b)\n" hr hw rfl rfl (by decide) 0
  exact ⟨hc, (hset (by decide)).trans hc⟩

theorem isSettled_of_continued_comment :
    let s := start {} (some (.ofLines ["#\\\n"]))
    let waiting := (s.readOut.2.turn 0).2.2.readOut.2
    s.handoff = none ∧ s.alive = true ∧ (s.probe "#\\\n").isComplete = true ∧
      waiting.scanner.isSettled = false ∧ (waiting.probe "").isComplete = false := by
  -- To the probe the comment ends with the line. From the supplier, the backslash joins it to the
  -- next line.
  decide +kernel

end ShellTokens.Session
