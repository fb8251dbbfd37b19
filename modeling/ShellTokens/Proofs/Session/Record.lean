import ShellTokens.Proofs.Session.Note
import ShellTokens.Proofs.Session.Outlook

/-!
# The record of a session

Each turn of a reader is written down, and keeps the record faithful as long as nobody shuts the
session down.
-/

namespace ShellTokens

open Event (noted)

/-! ## What is written down of a turn -/

def Event.isFailure : Event → Bool
  | inputFailed .. => true
  | _ => false

namespace Event

def requests (es : List Event) : Nat := es.countP isRequest

theorem requests_append (es fs : List Event) : requests (es ++ fs) = requests es + requests fs :=
  List.countP_append

theorem requests_request (label : String) (line : LineCount) (es : List Event) :
    requests (.requesting label line :: es) = requests es + 1 :=
  List.countP_cons_of_pos rfl

theorem requests_of_any {es : List Event} (h : es.any isRequest = false) : requests es = 0 := by
  unfold requests
  rw [List.countP_eq_zero]
  simpa using h

end Event

/-- The text that an answer puts behind the input: continued lines are joined, and the last text
gets a line end. -/
def Answer.input? : Answer → Option String
  | line text => some (Text.joined text)
  | eof rest => some (Text.joined rest ++ "\n")
  | fatal rest _ => some (Text.joined rest ++ "\n")
  | retry | cancelled => none

namespace Session

def resultNotes (es : List Event) : Turn → List Note
  | .done (.token t) => if es.any Event.isFailure then [.reported t] else [.returned t]
  | .done .nothing => [.ended]
  | _ => []

def turnNotes (retries : Nat) (s : Session) : List Note :=
  let r := s.turn retries
  let request := if r.1.any Event.isRequest then
      .asked :: ((s.supplier.bind (·.ask.1.answer)).bind Answer.input?).toList.map .appended
    else []
  request ++ resultNotes r.1 r.2.1

/-- What is written down until the reader comes back. -/
def pullNotes (retries : Nat) (s : Session) : List Note :=
  match _h : s.turn retries with
  | (_, .done _, _) => s.turnNotes retries
  | (_, .again n, t) => s.turnNotes retries ++ t.pullNotes n
  termination_by s.effort
  decreasing_by
    have := turn_effort_lt retries s (by rw [_h]; rfl)
    rwa [_h] at this

def drainNotes (s : Session) : List Note :=
  match _h : s.next with
  | (_, .token _, t) => s.pullNotes 0 ++ t.drainNotes
  | _ => s.pullNotes 0
  termination_by s.effort
  decreasing_by exact pull_effort_lt (congrArg Prod.snd _h)

variable {s t : Session}

theorem pullNotes_of_done {retries : Nat} {es : List Event} {p : Pull}
    (h : s.turn retries = (es, .done p, t)) : s.pullNotes retries = s.turnNotes retries := by
  rw [pullNotes]
  split
  · rfl
  · next hs => rw [hs] at h; cases h

theorem pullNotes_of_again {retries n : Nat} {es : List Event}
    (h : s.turn retries = (es, .again n, t)) :
    s.pullNotes retries = s.turnNotes retries ++ t.pullNotes n := by
  rw [pullNotes]
  split
  · next hs => rw [hs] at h; cases h
  · next hs => rw [hs] at h; cases h; rfl

theorem drainNotes_of_token {es : List Event} {k : Token} (h : s.next = (es, .token k, t)) :
    s.drainNotes = s.pullNotes 0 ++ t.drainNotes := by
  rw [drainNotes]
  split
  · next hs => rw [hs] at h; cases h; rfl
  · next hn => exact absurd h (hn es k t)

theorem drainNotes_of_end {es : List Event} {p : Pull} (h : s.next = (es, p, t))
    (hp : ∀ k, p ≠ .token k) : s.drainNotes = s.pullNotes 0 := by
  rw [drainNotes]
  split
  · next hs => rw [hs] at h; cases h; exact absurd rfl (hp _)
  · rfl

/-! ## A turn keeps the record -/

/-- Nobody shuts the session down. -/
structure Quiet (s : Session) : Prop where
  alive : s.alive = true
  failure : s.failure = none
  signals : .shutdown ∉ s.signals
  supplier : ∀ supplier, s.supplier = some supplier →
    ∀ call ∈ supplier.calls, .shutdown ∉ call.signals

/-- The record is faithful, and all of the input is in it. -/
structure Keeps (interactive : Bool) (notes : List Note) (s : Session) : Prop where
  sound : s.Sound
  quiet : s.Quiet
  follows : Note.Follows interactive notes s.coming s.scanner.behind

variable {interactive : Bool} {notes : List Note}

theorem Quiet.of_signals {later : List Signal} (h : s.Quiet) (hl : .shutdown ∉ later) :
    Quiet { s with signals := later } :=
  ⟨h.alive, h.failure, hl, h.supplier⟩

theorem sendAll_of_not_mem {signals : List Signal} (h : .shutdown ∉ signals) (s : Session) :
    s.sendAll signals = { s with signals := s.signals ++ signals } := by
  induction signals generalizing s with
  | nil =>
    rw [List.append_nil]
    rfl
  | cons signal signals ih =>
    rw [List.mem_cons, not_or] at h
    cases signal with
    | shutdown => exact absurd rfl h.1
    | interrupt =>
      rw [sendAll, List.foldl_cons, ← sendAll, ih h.2]
      simp [send]

theorem Quiet.called {supplier : Supplier} (h : s.Quiet) (hp : s.supplier = some supplier) :
    (s.called supplier).Quiet ∧ (s.called supplier).scanner = s.scanner := by
  have hq := h.supplier supplier hp
  obtain ⟨calls⟩ := supplier
  have hc : .shutdown ∉ (Supplier.ask ⟨calls⟩).1.signals ∧
      ∀ call ∈ (Supplier.ask ⟨calls⟩).2.calls, .shutdown ∉ call.signals := by
    rcases calls with _ | ⟨call, later⟩
    · exact ⟨nofun, nofun⟩
    · exact ⟨hq call List.mem_cons_self, fun c hc => hq c (List.mem_cons_of_mem call hc)⟩
  unfold Session.called
  rw [sendAll_of_not_mem hc.1]
  refine ⟨⟨h.alive, h.failure, ?_, ?_⟩, rfl⟩
  · intro hm
    rcases List.mem_append.1 hm with hm | hm
    · exact h.signals hm
    · exact hc.1 hm
  · rintro supplier ⟨⟩
    exact hc.2

theorem follows_append (hs : s.scanner.cursor.Sound)
    (h : Note.Follows interactive notes s.coming s.scanner.behind) (text : String) :
    Note.Follows interactive (notes ++ [.appended text]) (s.append text).coming
      (s.append text).scanner.behind := by
  rw [coming_append hs]
  exact (h.append text).alike (Scanner.behind_append hs (Text.bytes text))

theorem Keeps.receive (h : Keeps interactive notes s) (hh : s.handoff = none) (text : String)
    (last : Bool) :
    Keeps interactive (notes ++ [.appended (Text.joined text ++ if last then "\n" else "")])
      (s.receive text last) := by
  have hf := follows_append h.sound.cursor h.follows (Text.joined text ++ if last then "\n" else "")
  refine ⟨h.sound.receive text last, ⟨h.quiet.alive, h.quiet.failure, h.quiet.signals, ?_⟩, ?_⟩
  · intro supplier hp
    cases last with
    | true => cases hp
    | false => exact h.quiet.supplier supplier hp
  · have hn (x : String) : (s.append x).held? = none := held?_of_handoff hh
    unfold coming at hf
    rw [hn] at hf
    exact hf

theorem any_of_noted {es : List Event} (h : noted es = []) :
    es.any Event.isRequest = false ∧ es.any Event.isFailure = false :=
  ⟨Event.any_of_noted_eq_nil (fun _ _ => rfl) h, Event.any_of_noted_eq_nil (fun _ _ => rfl) h⟩

theorem turnNotes_of_turn {retries : Nat} {es : List Event} {r : Turn}
    (h : s.turn retries = (es, r, t)) (hr : es.any Event.isRequest = false) :
    s.turnNotes retries = resultNotes es r := by
  unfold turnNotes
  simp only [h, hr, Bool.false_eq_true, if_false, List.nil_append]

theorem Quiet.keeps {ks : List Token} {behind : Scanner} (h : s.Quiet) (ht : t.Sound)
    (hb : behind.cursor.Sound)
    (ho : t.outlook = { s.outlook with input := some (ks, behind.standing) })
    (hf : Note.Follows interactive notes ks behind) : Keeps interactive notes t := by
  have hi : t.outlook.input = some (ks, behind.standing) := congrArg Outlook.input ho
  have hfail : t.failure = s.failure := congrArg Outlook.failure ho
  have hsig : t.signals = s.signals := congrArg Outlook.signals ho
  have hsup : t.supplier = s.supplier := congrArg Outlook.supplier ho
  simp only [outlook, Option.ite_none_right_eq_some, Option.some.injEq, Prod.mk.injEq] at hi
  obtain ⟨ha, hc, hst⟩ := hi
  have hal : behind.Alike t.scanner.behind :=
    Scanner.alike_iff.2 ⟨hb, Scanner.sound_behind ht.cursor, hst⟩
  refine ⟨ht, ⟨ha, hfail.trans h.failure, ?_, ?_⟩, ?_⟩
  · rw [hsig]
    exact h.signals
  · rw [hsup]
    exact h.supplier
  · rw [hc]
    exact hf.alike hal

theorem Keeps.await (h : Keeps interactive notes s) (hw : s.Waits)
    (hh : s.handoff.isSome = true) (retries : Nat) :
    Keeps interactive (notes ++ s.turnNotes retries) (s.turn retries).2.2 := by
  have ht := turn_of_handoff hw hh retries
  obtain ⟨hes, hsound, hr⟩ := await_spec h.sound hw.alive hh retries
  rcases ha : s.await retries with ⟨es, r, t⟩
  rw [ha] at ht hes hsound hr
  simp only at hes hsound hr
  obtain ⟨hreq, hfail⟩ := any_of_noted hes
  rw [turnNotes_of_turn ht hreq, ht]
  have hb := Scanner.sound_behind h.sound.cursor
  have hf := h.follows
  rcases hr with ⟨k, ks, rfl, hc, ho⟩ | ⟨rfl, ho⟩
  · unfold resultNotes
    rw [hfail]
    rw [hc] at hf
    exact h.quiet.keeps hsound hb ho hf.take
  · unfold resultNotes
    rw [List.append_nil]
    exact h.quiet.keeps hsound hb (ho.trans (outlook_input hw.alive)) hf

theorem Keeps.answered (h : Keeps interactive notes s) (hh : s.handoff = none) (retries : Nat)
    (a : Answer) :
    Keeps interactive
      (notes ++ (a.input?.toList.map .appended ++
        resultNotes (s.answered retries a).1 (s.answered retries a).2.1))
      (s.answered retries a).2.2 := by
  have hline (text : String) := h.receive hh text false
  have hlast (text : String) := h.receive hh text true
  simp only [Bool.false_eq_true, if_false, if_true, String.append_empty] at hline hlast
  cases a with
  | line text => exact hline text
  | retry =>
    refine ⟨h.sound, h.quiet, ?_⟩
    exact (List.append_nil notes).symm ▸ h.follows
  | cancelled =>
    refine ⟨h.sound, h.quiet, ?_⟩
    exact h.follows.pass (.returned .interrupt) rfl rfl nofun
  | eof rest => exact hlast rest
  | fatal rest reason =>
    have hk := hlast rest
    refine ⟨hk.sound, hk.quiet, ?_⟩
    have hp := hk.follows.pass (.reported (.error reason)) rfl rfl nofun
    rw [List.append_assoc] at hp
    exact hp

theorem turnNotes_of_request {retries : Nat} {lines : LineCount} {label : String}
    {es : List Event} {r : Turn} {supplier : Supplier} (hp : s.supplier = some supplier)
    (h : s.turn retries = (.requesting label lines :: es, r, t)) :
    s.turnNotes retries =
      .asked :: ((supplier.ask.1.answer.bind Answer.input?).toList.map .appended ++
        resultNotes es r) := by
  have hr : resultNotes (.requesting label lines :: es) r = resultNotes es r := by
    unfold resultNotes
    simp only [List.any_cons, Event.isFailure, Bool.false_or]
  unfold turnNotes
  simp only [h, hp, hr, List.any_cons, Event.isRequest, Bool.true_or, if_true, Option.bind_some,
    List.cons_append]

theorem Keeps.called (h : Keeps interactive notes s) (hh : s.handoff = none) {supplier : Supplier}
    (hp : s.supplier = some supplier) :
    Keeps interactive (notes ++ [.asked]) (s.called supplier) := by
  obtain ⟨hq, hs⟩ := h.quiet.called hp
  have hn := h.sound.coming_eq_nil h.quiet.alive hh
  have hc : (s.called supplier).coming = s.coming := by
    unfold coming held?
    rw [hs, handoff_called]
  refine ⟨h.sound.called supplier, hq, ?_⟩
  rw [hc, hs]
  exact h.follows.pass .asked rfl rfl fun _ => hn

theorem Keeps.ask (h : Keeps interactive notes s) (hw : s.Waits) (hh : s.handoff = none)
    {supplier : Supplier} (hp : s.supplier = some supplier) (retries : Nat) :
    Keeps interactive (notes ++ s.turnNotes retries) (s.turn retries).2.2 := by
  have ht := turn_of_supplier hw hh hp retries
  have hc := h.called hh hp
  cases ha : supplier.ask.1.answer with
  | some a =>
    rw [ask_of_some ha] at ht
    have hk := hc.answered ((handoff_called supplier s).trans hh) retries a
    rw [turnNotes_of_request hp ht, ht, ha]
    rw [List.append_assoc] at hk
    exact hk
  | none =>
    rw [ask_of_none ha] at ht
    have hr : resultNotes []
        (if (s.called supplier).signals.isEmpty then .done .blocked else .again retries) = [] := by
      split <;> rfl
    rw [turnNotes_of_request hp ht, ht, ha, hr]
    exact hc

theorem Keeps.turn (h : Keeps interactive notes s) (retries : Nat) :
    Keeps interactive (notes ++ s.turnNotes retries) (s.turn retries).2.2 := by
  rcases hs : s.signals with _ | ⟨signal, later⟩
  · have hw : s.Waits := ⟨h.quiet.failure, hs, h.quiet.alive⟩
    rcases hh : s.handoff with _ | o
    · rcases hp : s.supplier with _ | supplier
      · have ht := turn_of_no_supplier hw hh hp retries
        have hn := h.sound.coming_eq_nil h.quiet.alive hh
        rw [turnNotes_of_turn ht rfl, ht]
        exact ⟨h.sound, h.quiet, h.follows.pass .ended rfl rfl fun _ => hn⟩
      · exact h.ask hw hh hp retries
    · exact h.await hw (by rw [hh]; rfl) retries
  · have ht := turn_of_signal h.quiet.failure hs retries
    have hq := h.quiet.signals
    rw [hs, List.mem_cons, not_or] at hq
    cases signal with
    | shutdown => exact absurd rfl hq.1
    | interrupt =>
      rw [turnNotes_of_turn ht rfl, ht]
      refine ⟨?_, h.quiet.of_signals hq.2, ?_⟩
      · exact ⟨h.sound.cursor, h.sound.abandoned, h.sound.opened, h.sound.idle⟩
      · exact h.follows.pass (.returned .interrupt) rfl rfl nofun

/-! ## A run keeps the record -/

theorem Keeps.pull (h : Keeps interactive notes s) (retries : Nat) :
    Keeps interactive (notes ++ s.pullNotes retries) (s.pull retries).2.2 := by
  fun_induction pullNotes retries s generalizing notes with
  | case1 retries s es p t hs =>
    rw [pull_of_done hs]
    have hk := h.turn retries
    rwa [hs] at hk
  | case2 retries s es n t hs ih =>
    rw [pull_of_again hs]
    have hk := h.turn retries
    rw [hs] at hk
    rw [← List.append_assoc]
    exact ih hk

theorem Keeps.drain (h : Keeps interactive notes s) :
    Keeps interactive (notes ++ s.drainNotes) s.drain.2.2.2 := by
  fun_induction drainNotes s generalizing notes with
  | case1 s es k t hs ih =>
    rw [drain_of_token hs]
    have hk := h.pull 0
    unfold next at hs
    rw [hs] at hk
    rw [← List.append_assoc]
    exact ih hk
  | case2 s hn =>
    rcases hs : s.next with ⟨es, p, t⟩
    have hk := h.pull 0
    rw [drain_of_end hs fun k hp => hn es k t (hp ▸ hs)]
    unfold next at hs
    rw [hs] at hk
    exact hk

end Session

end ShellTokens
