import ShellTokens.Proofs.Scanner.LineEnd
import ShellTokens.Proofs.Session.Foretold
import ShellTokens.Proofs.Session.Interrupts

/-!
# Where errors come from

All that a session scans is text, and to no part of it does the scanner object. The only errors that
a reader gets are the reasons of a supplier to break off.
-/

namespace ShellTokens

open Event (noted requests requests_append requests_request requests_of_any)

/-! ## Scanning text -/

namespace Scanner

variable {s t : Scanner} {e : Emission}

theorem InText.peek_ne_invalid (h : s.InText) (byte : UInt8) :
    s.cursor.peek ≠ .invalid byte := by
  obtain ⟨cs, hu⟩ := h
  rw [Cursor.peek_eq, hu]
  cases cs with
  | nil => simp [Text.encoded, Rune.read]
  | cons c cs =>
    rw [Text.encoded_cons, Rune.read_utf8EncodeChar_append]
    simp

theorem InText.isScanned_step (h : s.InText) (hs : s.step = .emit e t) :
    e.toToken.kind.isScanned = true := by
  rcases isScanned_or_of_step hs with hk | ⟨byte, -, hp⟩
  · exact hk
  · exact absurd hp (h.marked.peek_ne_invalid byte)

theorem InText.scan (h : s.InText) :
    s.scan.2.InText ∧ ∀ e ∈ s.scan.1, e.toToken.kind.isScanned = true := by
  induction s using step_induction with
  | halt s t hs =>
    rw [scan_of_halt hs, step_halt hs]
    exact ⟨h.marked, nofun⟩
  | silent s t hs ih =>
    rw [scan_of_silent hs]
    exact ih (h.step (by rw [hs]; rfl))
  | emit s e t hs ih =>
    rw [scan_of_emit hs]
    refine ⟨h.step (by rw [hs]; rfl), ?_⟩
    rintro e' ⟨⟩
    exact h.isScanned_step hs

theorem InText.emissions (h : s.InText) : ∀ e ∈ s.emissions, e.toToken.kind.isScanned = true := by
  induction s using step_induction with
  | halt s t hs =>
    rw [emissions_of_halt hs]
    nofun
  | silent s t hs ih =>
    rw [emissions_of_silent hs]
    exact ih (h.step (by rw [hs]; rfl))
  | emit s e t hs ih =>
    rw [emissions_of_emit hs]
    exact List.forall_mem_cons.2 ⟨h.isScanned_step hs, ih (h.step (by rw [hs]; rfl))⟩

theorem InText.append (h : s.InText) (hs : s.cursor.Sound) (text : String) :
    (s.append (Text.bytes text)).InText := by
  obtain ⟨cs, hu⟩ := h
  refine ⟨cs ++ text.toList, ?_⟩
  rw [Scanner.append, hs.unread_append, hu, Text.encoded_append]
  rfl

end Scanner

theorem Emission.events_of_isScanned {e : Emission} (h : e.toToken.kind.isScanned = true) :
    e.events = [] := by
  cases e with
  | token t => rfl
  | malformed byte state => cases h

/-! ## What a supplier complains of -/

def Answer.reason? : Answer → Option String
  | fatal _ reason => some reason
  | _ => none

namespace Call

def reason? (c : Call) : Option String := c.answer.bind Answer.reason?

def errors (calls : List Call) : List Token := (calls.filterMap reason?).map Token.error

theorem errors_singleton (c : Call) : errors [c] = c.reason?.toList.map Token.error := by
  unfold errors
  cases h : c.reason? <;> simp [h]

theorem errors_append (calls more : List Call) :
    errors (calls ++ more) = errors calls ++ errors more := by
  rw [errors, List.filterMap_append, List.map_append]
  rfl

end Call

theorem Supplier.errors_made_one (p : Supplier) :
    Call.errors (made 1 (some p)) = Call.errors [p.ask.1] := by
  obtain ⟨calls⟩ := p
  cases calls <;> rfl

namespace Session

variable {s t u : Session} {retries : Nat}

/-! ## The input of a session -/

/-- The session has been given nothing but text, and what the scan task offers comes from that. -/
structure OfText (s : Session) : Prop where
  input : s.scanner.InText
  held : ∀ k, s.held? = some k → k.kind.isScanned = true

theorem OfText.genuine (h : s.OfText) : s.Genuine :=
  fun k hk => Kind.isText_of_isScanned (h.held k hk)

theorem ofText_of_not_held (hi : s.scanner.InText) (hn : s.held? = none) : s.OfText := by
  refine ⟨hi, fun k hk => ?_⟩
  rw [hn] at hk
  cases hk

theorem ofText_start (o : Options) (supplier : Option Supplier) : (start o supplier).OfText :=
  ofText_of_not_held ⟨[], rfl⟩ rfl

theorem inText_work (alive : Bool) {task : Task} {c : Scanner} (hc : c.InText)
    (ho : ∀ k, task.offered = some k → k.kind.isScanned = true) :
    (task.work alive c).events = [] ∧ (task.work alive c).scanner.InText ∧
      ∀ k, (task.work alive c).task.bind (·.offered) = some k → k.kind.isScanned = true := by
  obtain ⟨hscan, hemit⟩ := hc.scan
  unfold Task.work
  repeat' split
  · exact ⟨rfl, hc, nofun⟩
  · exact ⟨rfl, hc, ho⟩
  · exact ⟨rfl, hc, nofun⟩
  · next t hs =>
    rw [hs] at hscan
    exact ⟨rfl, hscan, nofun⟩
  · next e t hs =>
    rw [hs] at hscan hemit
    have he := hemit e rfl
    refine ⟨Emission.events_of_isScanned he, hscan, ?_⟩
    rintro k ⟨⟩
    exact he

theorem OfText.settle (h : s.OfText) (hs : s.Sound) : s.settle.1 = [] ∧ s.settle.2.OfText := by
  unfold Session.settle
  rw [Task.workAll_closed hs.abandoned]
  simp only
  split
  · next task rescan hh =>
    have hheld : s.held? = task.offered := by rw [held?, hh]; rfl
    obtain ⟨he, hi, hk⟩ := inText_work s.alive h.input (hheld ▸ h.held)
    exact ⟨he, hi, hk⟩
  · exact ⟨rfl, h.input, h.held⟩

theorem OfText.collect (h : s.OfText) (retries : Nat) :
    (s.collect retries).2.OfText ∧
      ∀ k ∈ (s.collect retries).1.tokens, k.kind.isScanned = true := by
  unfold Session.collect
  split
  · next k closed rescan hh =>
    have hk : k.kind.isScanned = true := h.held k (by rw [held?, hh]; rfl)
    refine ⟨ofText_of_not_held h.input rfl, ?_⟩
    rintro k' hk'
    rwa [List.mem_singleton.1 hk']
  · exact ⟨ofText_of_not_held h.input rfl, fun _ hk => absurd hk List.not_mem_nil⟩
  · exact ⟨ofText_of_not_held h.input rfl, fun _ hk => absurd hk List.not_mem_nil⟩

/-! ## The account of a run -/

/-- No byte has been rejected, and the reader has got one error for each call in which the supplier
gave a reason to break off. -/
structure Reports (s : Session) (es : List Event) (ks : List Token) : Prop where
  accepted : es.any Event.isMalformed = false
  errors : ks.filter (·.kind = .error) = Call.errors (Supplier.made (requests es) s.supplier)

theorem reports_of_unasked {es : List Event} {ks : List Token}
    (hm : es.any Event.isMalformed = false) (hr : es.any Event.isRequest = false)
    (hk : ∀ k ∈ ks, k.kind ≠ .error) : s.Reports es ks := by
  refine ⟨hm, ?_⟩
  rw [requests_of_any hr, List.filter_eq_nil_iff.2 fun k h => by simpa using hk k h]
  simp [Supplier.made, Call.errors]

theorem Reports.append {sent more : Nat} {es fs : List Event} {ks ls : List Token}
    (h : s.Reports es ks) (h' : t.Reports fs ls) (hb : s.Balanced sent es ks t)
    (hb' : t.Balanced more fs ls u) : s.Reports (es ++ fs) (ks ++ ls) := by
  refine ⟨?_, ?_⟩
  · rw [List.any_append, h.accepted, h'.accepted]
    rfl
  · rw [List.filter_append, h.errors, h'.errors, hb.made_append hb', Call.errors_append]

theorem OfText.await (h : s.OfText) (hs : s.Sound) (retries : Nat) :
    (s.await retries).2.2.OfText ∧ s.Reports (s.await retries).1 (s.await retries).2.1.tokens := by
  obtain ⟨he, ht⟩ := h.settle hs
  obtain ⟨hc, hk⟩ := ht.collect retries
  rw [await_eq, he]
  exact ⟨hc, reports_of_unasked rfl rfl fun k h => Kind.ne_error_of_isScanned (hk k h)⟩

theorem OfText.called (h : s.OfText) (supplier : Supplier) : (s.called supplier).OfText := by
  obtain ⟨alive, hc⟩ :=
    sendAll_eq supplier.ask.1.signals { s with supplier := some supplier.ask.2 }
  rw [Session.called, hc]
  exact ⟨h.input, h.held⟩

theorem OfText.answered (h : s.OfText) (hs : s.Sound) (retries : Nat) (a : Answer) :
    let r := s.answered retries a
    r.2.2.OfText ∧ r.1.any Event.isMalformed = false ∧ r.1.any Event.isRequest = false ∧
      r.2.1.tokens.filter (·.kind = .error) = a.reason?.toList.map Token.error := by
  have hreceive (text : String) (last : Bool) : (s.receive text last).OfText :=
    ofText_of_not_held (h.input.append hs.cursor _) rfl
  cases a with
  | line text => exact ⟨hreceive _ _, rfl, rfl, rfl⟩
  | retry => exact ⟨h, rfl, rfl, rfl⟩
  | cancelled => exact ⟨h, rfl, rfl, rfl⟩
  | eof rest => exact ⟨hreceive _ _, rfl, rfl, rfl⟩
  | fatal rest reason => exact ⟨hreceive _ _, rfl, rfl, rfl⟩

theorem OfText.ask {supplier : Supplier} (h : s.OfText) (hs : s.Sound)
    (hp : s.supplier = some supplier) (retries : Nat) :
    (s.ask retries supplier).2.2.OfText ∧
      s.Reports (s.ask retries supplier).1 (s.ask retries supplier).2.1.tokens := by
  have hc := h.called supplier
  rcases ha : supplier.ask.1.answer with _ | a
  · rw [ask_of_none ha]
    refine ⟨hc, rfl, ?_⟩
    have hk : (if (s.called supplier).signals.isEmpty then Turn.done .blocked
        else .again retries).tokens = [] := by
      split <;> rfl
    have hone : requests [.requesting s.label (s.lines + 1)] = 1 := rfl
    rw [hk, hp, hone, supplier.errors_made_one, Call.errors_singleton, Call.reason?, ha]
    rfl
  · obtain ⟨ht, hm, hr, hk⟩ := hc.answered (hs.called supplier) retries a
    rw [ask_of_some ha]
    refine ⟨ht, hm, ?_⟩
    rw [hk, hp, requests_request, requests_of_any hr, supplier.errors_made_one,
      Call.errors_singleton, Call.reason?, ha]
    rfl

theorem OfText.turn (h : s.OfText) (hs : s.Sound) (retries : Nat) :
    (s.turn retries).2.2.OfText ∧ s.Reports (s.turn retries).1 (s.turn retries).2.1.tokens := by
  have hstay : s.Reports [] [] := reports_of_unasked rfl rfl nofun
  rcases s.finds with hf | ⟨hf, hsig⟩ | ⟨hf, hsig, ha⟩ | ⟨hw, hh⟩ | ⟨hw, hh, hp⟩ | ⟨hw, hh, hp⟩
  · rw [turn_of_failure hf]
    exact ⟨h, hstay⟩
  · rename_i signal later
    rw [turn_of_signal hf hsig]
    rcases signal with _ | _
    · refine ⟨⟨h.input, h.held⟩, reports_of_unasked rfl rfl fun k hk => ?_⟩
      rw [List.mem_singleton.1 hk]
      nofun
    · exact ⟨ofText_of_not_held h.input rfl, reports_of_unasked rfl rfl nofun⟩
  · rw [turn_of_dead hf hsig ha]
    exact ⟨h, hstay⟩
  · rw [turn_of_handoff hw hh]
    exact h.await hs retries
  · rw [turn_of_supplier hw hh hp]
    exact h.ask hs hp retries
  · rw [turn_of_no_supplier hw hh hp]
    exact ⟨h, hstay⟩

/-! ## A run -/

/-- What a run of the reader keeps and what it adds to the account. -/
structure Run (s : Session) (es : List Event) (ks : List Token) (t : Session) : Prop where
  sound : t.Sound
  ofText : t.OfText
  balanced : s.Balanced 0 es ks t
  reports : s.Reports es ks

theorem Run.trans {es fs : List Event} {ks ls : List Token} (h : s.Run es ks t)
    (h' : t.Run fs ls u) : s.Run (es ++ fs) (ks ++ ls) u :=
  ⟨h'.sound, h'.ofText, h.balanced.trans h'.balanced,
    h.reports.append h'.reports h.balanced h'.balanced⟩

theorem OfText.run_turn (h : s.OfText) (hs : s.Sound) (retries : Nat) :
    s.Run (s.turn retries).1 (s.turn retries).2.1.tokens (s.turn retries).2.2 :=
  ⟨hs.turn retries, (h.turn hs retries).1, (turn_balanced h.genuine retries).2,
    (h.turn hs retries).2⟩

theorem OfText.run_pull (h : s.OfText) (hs : s.Sound) (retries : Nat) :
    s.Run (s.pull retries).1 (s.pull retries).2.1.tokens (s.pull retries).2.2 := by
  induction retries, s using pull_induction with
  | done retries s es p t ht =>
    have hr := h.run_turn hs retries
    rw [ht] at hr
    rw [pull_of_done ht]
    exact hr
  | again retries s es n t ht ih =>
    have hr := h.run_turn hs retries
    rw [ht] at hr
    rw [pull_of_again ht]
    exact hr.trans (ih hr.ofText hr.sound)

theorem OfText.run_drain (h : s.OfText) (hs : s.Sound) :
    s.Run s.drain.1 (s.drain.2.1.map (·.token) ++ s.drain.2.2.1.tokens) s.drain.2.2.2 := by
  induction s using drain_induction with
  | token s es k t ht ih =>
    have hr := h.run_pull hs 0
    rw [← next, ht] at hr
    rw [drain_of_token ht]
    exact hr.trans (ih hr.ofText hr.sound)
  | last s es p t ht hn =>
    have hr := h.run_pull hs 0
    rw [← next, ht] at hr
    rw [drain_of_end ht hn]
    exact hr

end Session

/-! ## What a host does -/

namespace Host

variable {α : Type} {g : Host α} {s t : Session} {step : Step α}

theorem ofText_feed (h : s.OfText) (hs : s.Sound) (text : String) : (s.feed text).2.OfText := by
  have hi : (s.append text).scanner.InText := h.input.append hs.cursor text
  unfold Session.feed
  repeat' split
  · exact h
  · exact h
  · next o ho =>
    refine ⟨hi, fun k hk => h.held k ?_⟩
    rw [Session.held?, ho]
    exact hk
  · exact Session.ofText_of_not_held hi rfl

theorem filter_error_orEnd (p : Pull) :
    p.orEnd.tokens.filter (·.kind = .error) = p.tokens.filter (·.kind = .error) := by
  cases p <;> rfl

theorem ofText_act (hg : g.session = some s) (h : s.OfText) (hs : s.Sound) (step : Step α) :
    (∀ t, (act step s g).2.2.session = some t → t.OfText) ∧
      s.Reports (act step s g).1 (act step s g).2.1.tokens := by
  have hstay : s.Reports [] [] := Session.reports_of_unasked rfl rfl nofun
  have hsame (t : Session) (ht : g.session = some t) : t.OfText := by
    cases hg.symm.trans ht
    exact h
  cases step with
  | next =>
    have hr := h.run_pull hs 0
    exact ⟨fun t ht => by cases ht; exact hr.ofText, hr.reports⟩
  | lex =>
    have hr := h.run_pull hs 0
    refine ⟨fun t ht => by cases ht; exact hr.ofText, hr.reports.accepted, ?_⟩
    exact (filter_error_orEnd s.next.2.1).trans hr.reports.errors
  | drain =>
    have hr := h.run_drain hs
    exact ⟨fun t ht => by cases ht; exact hr.ofText, hr.reports⟩
  | feed text => exact ⟨fun t ht => by cases ht; exact ofText_feed h hs text, hstay⟩
  | settle =>
    obtain ⟨he, ht⟩ := h.settle hs
    refine ⟨fun t ht' => by cases ht'; exact ht, ?_⟩
    show s.Reports s.settle.1 []
    rw [he]
    exact hstay
  | probe line => exact ⟨hsame, hstay⟩
  | label => exact ⟨hsame, hstay⟩
  | submit value => exact ⟨fun t ht => hsame t ((session_submit value g).symm.trans ht), hstay⟩
  | send signal =>
    refine ⟨fun t ht => ?_, hstay⟩
    cases ht
    cases signal <;> exact ⟨h.input, h.held⟩
  | drop => exact ⟨fun t ht => (by cases ht), hstay⟩
  | activate => exact ⟨fun t ht => by cases ht; exact ⟨h.input, h.held⟩, hstay⟩
  | reset => exact ⟨fun t ht => by cases ht; exact ⟨h.input, h.held⟩, hstay⟩
  | discard =>
    exact ⟨fun t ht => by cases ht; exact Session.ofText_of_not_held ⟨[], rfl⟩ rfl,
      Session.reports_of_unasked rfl rfl nofun⟩
  | shutdown =>
    exact ⟨fun t ht => by cases ht; exact Session.ofText_of_not_held h.input rfl,
      Session.reports_of_unasked rfl rfl nofun⟩
  | abort message =>
    exact ⟨fun t ht => by cases ht; exact Session.ofText_of_not_held h.input rfl,
      Session.reports_of_unasked rfl rfl nofun⟩

end Host

theorem Session.Reachable.ofText {s : Session} (h : s.Reachable) : s.OfText := by
  induction h with
  | start o supplier => exact ofText_start o supplier
  | @perform α h s t step hs hr ht ih =>
    rw [Host.perform_eq hs] at ht
    exact (Host.ofText_act hs ih hr.sound step).1 t ht
  | turn retries hr ih => exact (ih.turn hr.sound retries).1

/-! ## Probes -/

namespace Probe

variable {p : Probe}

theorem mem_drain_of_perform {step : Step} {e : Emission} (h : e ∈ (p.perform step).2.drain.1) :
    e ∈ p.drain.1 := by
  have hnext (h : e ∈ p.next.2.drain.1) : e ∈ p.drain.1 := by
    rw [(drain_next p).1]
    exact List.mem_append_right _ h
  cases step with
  | next => exact hnext h
  | lex => exact hnext h
  | abort message => exact h
  | submit => exact h
  | isComplete =>
    have hd : p.drain.2.drain.1 = p.scanner.behind.drain.1.map (·.1) := rfl
    have hn : e ∈ p.drain.2.drain.1 := h
    rw [hd, Scanner.drain_behind] at hn
    cases hn

theorem mem_drain_of_after {steps : List Step} {e : Emission} (h : e ∈ (p.after steps).drain.1) :
    e ∈ p.drain.1 := by
  induction steps generalizing p with
  | nil => exact h
  | cons step later ih => exact mem_drain_of_perform (ih h)

end Probe

theorem Session.OfText.probe {s : Session} (h : s.OfText) (hs : s.Sound) (line : String) :
    ∀ e ∈ (s.probe line).drain.1, e.toToken.kind.isScanned = true := by
  intro e he
  rcases List.mem_append.1 he with he | he
  · obtain ⟨k, hk, rfl⟩ := List.mem_map.1 he
    exact h.held k (Option.mem_toList.1 hk)
  · exact (h.input.append hs.cursor line).emissions e he

namespace Host

variable {α : Type}

/-- No scanner of a session objects to a byte, nor does one of its probes. The errors that come out
of a step are the reasons to break off that the supplier has given in that step. -/
theorem errors_of_perform (h : Host α) (s : Session) (hs : h.session = some s)
    (hr : s.Reachable) :
    (∀ e ∈ s.scanner.emissions, e.toToken.kind ≠ .error) ∧
      (∀ (line : String) (deeds : List Probe.Step),
        ∀ e ∈ ((s.probe line).after deeds).drain.1, e.toToken.kind ≠ .error) ∧
      ∀ step : Step α,
        let r := h.perform step
        r.1.any Event.isMalformed = false ∧
          r.2.1.tokens.filter (·.kind = .error) =
            Call.errors (Supplier.made (requests r.1) s.supplier) := by
  have ht := hr.ofText
  refine ⟨fun e he => ?_, fun line deeds e he => ?_, fun step => ?_⟩
  · exact Kind.ne_error_of_isScanned (ht.input.emissions e he)
  · exact Kind.ne_error_of_isScanned (ht.probe hr.sound line e (Probe.mem_drain_of_after he))
  · obtain ⟨-, hreports⟩ := ofText_act hs ht hr.sound step
    rw [perform_eq hs]
    exact ⟨hreports.accepted, hreports.errors⟩

theorem errors_in_quotes :
    let supplier : Supplier :=
      ⟨[⟨[], some .retry⟩, ⟨[], some (.line "é \"b\\\n")⟩, ⟨[], some (.fatal "c\"" "gone")⟩]⟩
    let h : Host Nat := (start {} (some supplier) none).after [.feed "a ", .settle]
    ∃ s, h.session = some s ∧ s.Reachable ∧ s.held? = some ⟨.symbol, "a"⟩ ∧
      (∀ e ∈ ((s.probe "\\ü").after [.next]).drain.1, e.toToken.kind ≠ .error) ∧
      (h.perform .drain).1.any Event.isMalformed = false ∧
      (h.perform .drain).2.1.tokens.filter (·.kind = .error) = [Token.error "gone"] := by
  -- A token is held. A quotation begins in a line of the supplier, and ends in the text with which
  -- it breaks off.
  intro supplier h
  have hany : h.session.any (fun s => s.held? = some ⟨.symbol, "a"⟩ ∧
      s.supplier = some supplier) = true := by decide +kernel
  obtain ⟨s, hs, hp⟩ := (Option.any_eq_true _ _).1 hany
  obtain ⟨hheld, hsup⟩ := of_decide_eq_true hp
  have hr : s.Reachable := reachable_after_start _ _ _ _ hs
  obtain ⟨-, hprobe, hsteps⟩ := errors_of_perform h s hs hr
  obtain ⟨ha, he⟩ := hsteps .drain
  have hn : requests (h.perform .drain).1 = 3 := by decide +kernel
  rw [hn, hsup] at he
  exact ⟨s, hs, hr, hheld, hprobe _ _, ha, he⟩

end Host

end ShellTokens
