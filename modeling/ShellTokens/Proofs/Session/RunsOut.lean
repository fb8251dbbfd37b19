import ShellTokens.Proofs.Scanner.LineEnd
import ShellTokens.Proofs.Session.OneAhead
import ShellTokens.Proofs.Session.ReadOut

/-!
# Taking turns until the input has run out

All texts that come in go to the scanner, one behind the other, and the last one gets a line end. A
reader that comes back without a token has no task any more, and its scanner has got to the end.
-/

namespace ShellTokens

namespace Event

def endsInput : Event → Bool
  | endOfInput .. | inputFailed .. => true
  | _ => false

end Event

open Event (endsInput any_of_noted_eq_nil)

namespace Note

theorem exists_text (notes : List Note) : ∃ text, input notes = Text.bytes text := by
  induction notes with
  | nil => exact ⟨"", rfl⟩
  | cons note notes ih =>
    obtain ⟨text, ht⟩ := ih
    cases note with
    | appended first => exact ⟨first ++ text, by rw [input, ht, Text.bytes_append]⟩
    | _ => exact ⟨text, ht⟩

end Note

theorem Scanner.behind_words {s : Scanner} (h : s.behind = s) (w : FirstWords) :
    behind { s with words := w } = { s with words := w } := by
  have hs : s.step = .halt s := h ▸ s.step_behind
  have hm : s.marked = s := h ▸ s.marked_behind
  have hp := peek_of_halt hs
  rw [hm] at hp
  have hmw : marked { s with words := w } = { s with words := w } := by
    have : marked { s with words := w } = { s.marked with words := w } := by
      unfold marked
      split <;> rfl
    rw [this, hm]
  apply behind_of_halt
  rw [step, hmw, look, State.respond_eq_halt_iff.2 hp]

namespace Session

variable {s t u : Session} {es fs : List Event} {notes more : List Note}

/-! ## What comes to the scanner -/

/-- On the way from `s` to `t` the input of the notes has come in, and nothing of it has been passed
over, if the session lives on. -/
structure TakesIn (s : Session) (notes : List Note) (t : Session) : Prop where
  alive : t.alive = true → s.alive = true
  behind : t.alive = true → t.scanner.behind.Alike (s.scanner.append (Note.input notes)).behind
  rests : t.alive = true → s.Rests → t.Rests

theorem TakesIn.trans (h : s.TakesIn notes t) (h' : t.TakesIn more u) (hs : s.Sound)
    (ht : t.Sound) : s.TakesIn (notes ++ more) u := by
  refine ⟨fun ha => h.alive (h'.alive ha), fun ha => ?_,
    fun ha hr => h'.rests ha (h.rests (h'.alive ha) hr)⟩
  have hsound := Scanner.sound_append hs.cursor (Note.input notes)
  have hlater := (h'.behind ha).trans (Scanner.behind_append ht.cursor (Note.input more)).symm
  have hfirst := ((h.behind (h'.alive ha)).append (Note.input more)).drain.2
  rw [Note.input_append]
  exact (hlater.trans hfirst).trans ((Scanner.behind_append hsound _).trans
    (Scanner.append_append hs.cursor _ _).drain.2)

theorem takesIn_of_dead (ha : t.alive = false) : s.TakesIn notes t := by
  constructor <;> simp [ha]

theorem behind_append_nil (h : s.Sound) : s.scanner.behind.Alike (s.scanner.append []).behind :=
  (show s.scanner.Alike (s.scanner.append []) from Scanner.lacks_append h.cursor []).drain.2

theorem takesIn_of_readsTo (h : s.Sound) (ha : t.alive = true → s.alive = true)
    (hr : t.alive = true → s.ReadsTo t) (hn : Note.input notes = []) : s.TakesIn notes t := by
  refine ⟨ha, fun hat => ?_, fun hat => (hr hat).rests⟩
  rw [(hr hat).behind, hn]
  exact behind_append_nil h

theorem readsTo_of_same (hs : t.scanner = s.scanner) (hh : t.handoff = s.handoff) :
    s.ReadsTo t := by
  refine ⟨by rw [hs], fun hr => ?_⟩
  unfold Rests isIdle
  rw [hs, hh]
  exact hr

/-- A task is due once input has come in. -/
theorem takesIn_of_append (h : s.Sound) (ha : t.alive = true → s.alive = true)
    (hs : t.scanner = s.scanner.append (Note.input notes)) (hi : t.isIdle = false) :
    s.TakesIn notes t := by
  refine ⟨ha, fun _ => ?_, fun _ _ => rests_of_not_idle hi⟩
  rw [hs]
  exact .refl (Scanner.sound_behind (Scanner.sound_append h.cursor _))

theorem takesIn_words (h : s.Sound) (w : FirstWords) :
    s.TakesIn [] { s with scanner := { s.scanner with words := w } } := by
  have ha : s.scanner.Alike { s.scanner with words := w } :=
    Scanner.alike_iff.2 ⟨h.cursor, h.cursor, rfl⟩
  refine ⟨id, fun _ => ?_, fun _ hr hi => Scanner.behind_words (hr hi) w⟩
  exact ha.drain.2.symm.trans (behind_append_nil h)

/-! ## Up to the end -/

/-- On the way from `s` to `t` the reader has taken turns. Once the supplier is at its end, no more
input comes in, and when the reader has come back without a token, it knows of no task any more. -/
structure RunsOut (s : Session) (es : List Event) (notes : List Note) (t : Session) : Prop
    extends s.TakesIn notes t where
  supplier : s.supplier = none →
    t.supplier = none ∧ Note.input notes = [] ∧ es.any endsInput = false
  last : es.any endsInput = true →
    t.supplier = none ∧ ∃ text, Note.input notes = Text.bytes (text ++ "\n")
  ended : .ended ∈ notes → t.alive = true → t.supplier = none ∧ t.handoff = none
  spent : s.supplier = none → s.handoff = none → t.alive = true → t.handoff = none

theorem RunsOut.trans (h : s.RunsOut es notes t) (h' : t.RunsOut fs more u) (hs : s.Sound)
    (ht : t.Sound) : s.RunsOut (es ++ fs) (notes ++ more) u := by
  refine ⟨h.toTakesIn.trans h'.toTakesIn hs ht, fun hp => ?_, fun he => ?_, fun hn ha => ?_,
    fun hp hh ha => ?_⟩
  · obtain ⟨hpt, hi, he⟩ := h.supplier hp
    obtain ⟨hpu, hi', he'⟩ := h'.supplier hpt
    rw [Note.input_append, hi, hi', List.any_append, he, he']
    exact ⟨hpu, rfl, rfl⟩
  · rw [List.any_append, Bool.or_eq_true] at he
    rw [Note.input_append]
    rcases he with he | he
    · obtain ⟨hpt, text, hi⟩ := h.last he
      obtain ⟨hpu, hi', -⟩ := h'.supplier hpt
      exact ⟨hpu, text, by rw [hi, hi', List.append_nil]⟩
    · obtain ⟨hpu, text, hi⟩ := h'.last he
      obtain ⟨first, hf⟩ := Note.exists_text notes
      refine ⟨hpu, first ++ text, ?_⟩
      rw [hf, hi, String.append_assoc, Text.bytes_append first]
  · rcases List.mem_append.1 hn with hn | hn
    · obtain ⟨hpt, hht⟩ := h.ended hn (h'.alive ha)
      exact ⟨(h'.supplier hpt).1, h'.spent hpt hht ha⟩
    · exact h'.ended hn ha
  · exact h'.spent (h.supplier hp).1 (h.spent hp hh (h'.alive ha)) ha

theorem TakesIn.runsOut (h : s.TakesIn notes t) (hp : t.supplier = s.supplier)
    (hh : s.handoff = none → t.alive = true → t.handoff = none) (he : es.any endsInput = false)
    (hn : Note.input notes = [])
    (hend : .ended ∈ notes → t.alive = true → t.supplier = none ∧ t.handoff = none) :
    s.RunsOut es notes t := by
  refine ⟨h, fun hps => ⟨hp.trans hps, hn, he⟩, fun hl => ?_, hend, fun _ => hh⟩
  rw [he] at hl
  cases hl

theorem runsOut_of_dead (ha : t.alive = false) (hp : t.supplier = s.supplier)
    (he : es.any endsInput = false) (hn : Note.input notes = []) : s.RunsOut es notes t := by
  refine (takesIn_of_dead ha).runsOut hp ?_ he hn ?_ <;> simp [ha]

theorem runsOut_of_same (h : s.Sound) (hs : t.scanner = s.scanner) (hh : t.handoff = s.handoff)
    (hp : t.supplier = s.supplier) (ha : t.alive = s.alive) (he : es.any endsInput = false)
    (hn : Note.input notes = [])
    (hend : .ended ∈ notes → t.supplier = none ∧ t.handoff = none) : s.RunsOut es notes t := by
  have ht : s.TakesIn notes t :=
    takesIn_of_readsTo h (fun hat => ha.symm.trans hat) (fun _ => readsTo_of_same hs hh) hn
  exact ht.runsOut hp (fun hh' _ => hh.trans hh') he hn fun hm _ => hend hm

/-! ## A turn -/

theorem input_resultNotes (es : List Event) (r : Turn) : Note.input (resultNotes es r) = [] := by
  unfold resultNotes
  split
  · split <;> rfl
  · rfl
  · rfl

theorem ended_notMem_resultNotes {r : Turn} (hr : r ≠ .done .nothing) (es : List Event) :
    .ended ∉ resultNotes es r := by
  unfold resultNotes
  split
  · split <;> simp
  · exact absurd rfl hr
  · nofun

theorem supplier_await (retries : Nat) (s : Session) :
    (s.await retries).2.2.supplier = s.supplier := by
  have hc : (s.settle.2.collect retries).2.supplier = s.settle.2.supplier := by
    unfold collect
    split <;> rfl
  rw [await_eq]
  exact hc.trans s.settle_unasked.2.1.supplier

theorem runsOut_await (h : s.Sound) (hw : s.Waits) (hh : s.handoff.isSome = true)
    (retries : Nat) :
    s.RunsOut (s.turn retries).1 (s.turnNotes retries) (s.turn retries).2.2 := by
  have ht := turn_of_handoff hw hh retries
  obtain ⟨hes, hp⟩ := await_spec h hw.alive hh retries
  have hr : (s.await retries).2.1 ≠ .done .nothing := by
    rcases hp.result with ⟨k, ks, hk, -⟩ | ⟨hk, -⟩
    all_goals
      rw [hk]
      nofun
  rw [turnNotes_of_turn ht (any_of_noted hes).1, ht]
  have hi := input_resultNotes (s.await retries).1 (s.await retries).2.1
  have hin : s.TakesIn _ (s.await retries).2.2 :=
    takesIn_of_readsTo h (fun _ => hw.alive) (fun _ => readsTo_await h hw.alive retries) hi
  have he := any_of_noted_eq_nil (p := endsInput) (fun _ _ => rfl) hes
  refine hin.runsOut (supplier_await retries s) (fun hn => ?_) he hi
    fun hm => absurd hm (ended_notMem_resultNotes hr _)
  rw [hn] at hh
  cases hh

theorem takesIn_answered (h : s.Sound) (hn : Note.input more = []) (retries : Nat) (a : Answer) :
    s.TakesIn (a.input?.toList.map .appended ++ more) (s.answered retries a).2.2 := by
  have hsame : s.TakesIn more s := takesIn_of_readsTo h id (fun _ => readsTo_of_same rfl rfl) hn
  have hin (text : String) (last : Bool) :
      s.TakesIn (.appended (Text.joined text ++ if last then "\n" else "") :: more)
        (s.receive text last) := by
    refine takesIn_of_append h id ?_ rfl
    rw [Note.input, hn, List.append_nil]
    rfl
  have hline (text : String) := hin text false
  have hlast (text : String) := hin text true
  simp only [Bool.false_eq_true, if_false, if_true, String.append_empty] at hline hlast
  cases a with
  | line text => exact hline text
  | eof rest => exact hlast rest
  | fatal rest reason => exact hlast rest
  | retry => exact hsame
  | cancelled => exact hsame

theorem takesIn_called (h : s.Sound) (supplier : Supplier) :
    s.TakesIn [.asked] (s.called supplier) := by
  have hc := handsOver_called supplier s
  exact takesIn_of_readsTo h hc.alive
    (fun ha => readsTo_of_same (hc.scanner ha) (handoff_called supplier s)) rfl

theorem last_answered (retries : Nat) (a : Answer) (s : Session)
    (he : (s.answered retries a).1.any endsInput = true) :
    (s.answered retries a).2.2.supplier = none ∧ ∃ text, a.input? = some (text ++ "\n") := by
  cases a with
  | eof rest => exact ⟨rfl, _, rfl⟩
  | fatal rest reason => exact ⟨rfl, _, rfl⟩
  | line text => cases he
  | retry => cases he
  | cancelled => cases he

theorem answered_ne_nothing (retries : Nat) (a : Answer) (s : Session) :
    (s.answered retries a).2.1 ≠ .done .nothing := by
  cases a <;> nofun

theorem runsOut_ask {supplier : Supplier} (h : s.Sound) (hw : s.Waits) (hh : s.handoff = none)
    (hp : s.supplier = some supplier) (retries : Nat) :
    s.RunsOut (s.turn retries).1 (s.turnNotes retries) (s.turn retries).2.2 := by
  have ht := turn_of_supplier hw hh hp retries
  have hc := takesIn_called h supplier
  have hnone : s.supplier ≠ none := by
    rw [hp]
    nofun
  cases ha : supplier.ask.1.answer with
  | some a =>
    rw [ask_of_some ha] at ht
    have hr := answered_ne_nothing retries a (s.called supplier)
    have hi := input_resultNotes ((s.called supplier).answered retries a).1
      ((s.called supplier).answered retries a).2.1
    have hin := hc.trans (takesIn_answered (h.called supplier) hi retries a) h (h.called supplier)
    rw [turnNotes_of_request hp ht, ht, ha]
    refine ⟨hin, fun hp => absurd hp hnone, fun he => ?_, fun hm => ?_,
      fun hp => absurd hp hnone⟩
    · obtain ⟨hsup, text, htext⟩ := last_answered retries a _ he
      refine ⟨hsup, text, ?_⟩
      rw [Option.bind_some, htext]
      exact (congrArg _ hi).trans (List.append_nil _)
    · have hne := ended_notMem_resultNotes hr ((s.called supplier).answered retries a).1
      rw [Option.bind_some] at hm
      simp [hne] at hm
  | none =>
    rw [ask_of_none ha] at ht
    have hr : resultNotes []
        (if (s.called supplier).signals.isEmpty then .done .blocked else .again retries) = [] := by
      split <;> rfl
    rw [turnNotes_of_request hp ht, ht, ha, hr]
    refine ⟨hc, fun hp => absurd hp hnone, nofun, fun hm => ?_, fun hp => absurd hp hnone⟩
    simp at hm

theorem runsOut_turn (h : s.Sound) (retries : Nat) :
    s.RunsOut (s.turn retries).1 (s.turnNotes retries) (s.turn retries).2.2 := by
  cases s.finds with
  | failure hf =>
    have ht := turn_of_failure hf retries
    rw [turnNotes_of_turn ht rfl, ht]
    exact runsOut_of_same h rfl rfl rfl rfl rfl rfl nofun
  | @signal signal later hf hs =>
    have ht := turn_of_signal hf hs retries
    cases signal with
    | interrupt =>
      have hr : Turn.done (.token .interrupt) ≠ .done .nothing := nofun
      rw [turnNotes_of_turn ht rfl, ht]
      exact runsOut_of_same h rfl rfl rfl rfl rfl rfl
        fun hm => absurd hm (ended_notMem_resultNotes hr _)
    | shutdown =>
      rw [turnNotes_of_turn ht rfl, ht]
      exact runsOut_of_dead rfl rfl rfl rfl
  | dead hf hs ha =>
    have ht := turn_of_dead hf hs ha retries
    rw [turnNotes_of_turn ht rfl, ht]
    exact runsOut_of_dead ha rfl rfl rfl
  | task hw hh => exact runsOut_await h hw hh retries
  | supplier hw hh hp => exact runsOut_ask h hw hh hp retries
  | nothing hw hh hp =>
    have ht := turn_of_no_supplier hw hh hp retries
    rw [turnNotes_of_turn ht rfl, ht]
    exact runsOut_of_same h rfl rfl rfl rfl rfl rfl fun _ => ⟨hp, hh⟩

/-! ## Turn after turn -/

theorem runsOut_pull (h : s.Sound) (retries : Nat) :
    s.RunsOut (s.pull retries).1 (s.pullNotes retries) (s.pull retries).2.2 := by
  fun_induction pullNotes retries s with
  | case1 retries s es p t hs =>
    have ht := runsOut_turn h retries
    rw [hs] at ht
    rw [pull_of_done hs]
    exact ht
  | case2 retries s es n t hs ih =>
    have ht := runsOut_turn h retries
    have hst := h.turn retries
    rw [hs] at ht hst
    rw [pull_of_again hs]
    exact ht.trans (ih hst) h hst

theorem runsOut_drain (h : s.Sound) :
    s.RunsOut s.drain.1 s.drainNotes s.drain.2.2.2 := by
  fun_induction drainNotes s with
  | case1 s es k t hs ih =>
    have ht := runsOut_pull h 0
    have hst : s.next.2.2.Sound := pull_keeps (fun retries _ h => h.turn retries) 0 h
    rw [← next, hs] at ht
    rw [hs] at hst
    rw [drain_of_token hs]
    exact ht.trans (ih hst) h hst
  | case2 s hn =>
    rcases hs : s.next with ⟨es, p, t⟩
    have ht := runsOut_pull h 0
    rw [← next, hs] at ht
    rw [drain_of_end hs fun k hp => hn es k t (hp ▸ hs)]
    exact ht

end Session

end ShellTokens
