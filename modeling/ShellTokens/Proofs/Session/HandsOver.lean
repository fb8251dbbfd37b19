import ShellTokens.Proofs.Session.Dead
import ShellTokens.Proofs.Session.Interrupts

/-!
# What is handed over

All that is done to the scanner of a live session is that input comes in and that a scan task scans
on. A token that comes out of it is held until the reader takes it.
-/

namespace ShellTokens

open Scanner (Action)

/-! ## What is done to the scanner -/

def Task.deeds (alive : Bool) (task : Task) : List Action :=
  if task.closed || task.offered.isSome || !alive then [] else [.scan]

theorem Task.work_deeds (alive : Bool) (task : Task) (s : Scanner) :
    (task.work alive s).scanner = (s.handle (task.deeds alive)).2 ∧
      (alive = true → task.closed = false →
        task.offered.toList ++ (s.handle (task.deeds alive)).1.map (·.1.toToken) =
          ((task.work alive s).task.bind (·.offered)).toList) := by
  unfold Task.work Task.deeds
  cases hc : task.closed with
  | true => exact ⟨rfl, nofun⟩
  | false =>
    cases ho : task.offered with
    | some k =>
      refine ⟨rfl, fun _ _ => ?_⟩
      show _ = task.offered.toList
      rw [ho]
      rfl
    | none =>
      cases alive with
      | false => exact ⟨rfl, nofun⟩
      | true =>
        simp only [Bool.false_eq_true, if_false, Bool.not_true, Option.isSome_none, Bool.or_self,
          Scanner.handle]
        split
        · next t hs => simp [hs]
        · next e t hs => simp [hs]

/-- The text of an answer comes in behind all input. -/
def Answer.deeds (a : Answer) : List Action :=
  a.input?.toList.map fun text => .append (Text.bytes text)

namespace Session

variable {s t u : Session}

def settleDeeds (s : Session) : List Action :=
  s.abandoned.flatMap (Task.deeds s.alive) ++
    ((s.handoff.bind (·.task)).toList.flatMap (Task.deeds s.alive))

def turnDeeds (s : Session) : List Action :=
  if s.failure.isSome || !s.signals.isEmpty || !s.alive then []
  else
    match s.handoff, s.supplier with
    | some _, _ => s.settleDeeds
    | none, some supplier => (supplier.ask.1.answer.map Answer.deeds).getD []
    | none, none => []

def pullDeeds (retries : Nat) (s : Session) : List Action :=
  match _h : s.turn retries with
  | (_, .done _, _) => s.turnDeeds
  | (_, .again n, t) => s.turnDeeds ++ t.pullDeeds n
  termination_by s.effort
  decreasing_by
    have := turn_effort_lt retries s (by rw [_h]; rfl)
    rwa [_h] at this

def drainDeeds (s : Session) : List Action :=
  match _h : s.next with
  | (_, .token _, t) => s.pullDeeds 0 ++ t.drainDeeds
  | _ => s.pullDeeds 0
  termination_by s.effort
  decreasing_by exact pull_effort_lt (congrArg Prod.snd _h)

/-! ## What becomes of the tokens -/

/-- Nobody has ended the session, and nobody has asked its reader to. -/
def Unended (s : Session) : Prop := s.failure = none ∧ .shutdown ∉ s.signals

/-- On the way from `s` to `t` the deeds have been done to the scanner, and what it has emitted is
what the reader has got, but for the tokens that were held before and after. -/
structure HandsOver (s : Session) (deeds : List Action) (ks : List Token) (t : Session) :
    Prop where
  alive : t.alive = true → s.alive = true
  unended : t.alive = true → s.Unended → t.Unended
  scanner : t.alive = true → t.scanner = (s.scanner.handle deeds).2
  tokens : t.alive = true →
    s.held?.toList ++ (s.scanner.handle deeds).1.map (·.1.toToken) = ks ++ t.held?.toList

theorem handsOver_refl (s : Session) : s.HandsOver [] [] s :=
  ⟨id, fun _ => id, fun _ => rfl, fun _ => List.append_nil _⟩

theorem handsOver_of_dead {deeds : List Action} {ks : List Token} (h : t.alive = false) :
    s.HandsOver deeds ks t := by
  constructor <;> simp [h]

theorem HandsOver.trans {deeds more : List Action} {ks ls : List Token}
    (h : s.HandsOver deeds ks t) (h' : t.HandsOver more ls u) :
    s.HandsOver (deeds ++ more) (ks ++ ls) u := by
  refine ⟨fun ha => h.alive (h'.alive ha),
    fun ha hs => h'.unended ha (h.unended (h'.alive ha) hs), fun ha => ?_, fun ha => ?_⟩
  · rw [Scanner.handle_append, h'.scanner ha, h.scanner (h'.alive ha)]
  · have ht := h.tokens (h'.alive ha)
    have hu := h'.tokens ha
    rw [h.scanner (h'.alive ha)] at hu
    rw [Scanner.handle_append, List.map_append, ← List.append_assoc, ht, List.append_assoc, hu,
      List.append_assoc]

theorem handsOver_of_same (hs : t.scanner = s.scanner) (hh : t.handoff = s.handoff)
    (ha : t.alive = true → s.alive = true) (hu : t.alive = true → s.Unended → t.Unended) :
    s.HandsOver [] [] t := by
  refine ⟨ha, hu, fun _ => hs, fun _ => ?_⟩
  unfold held?
  rw [hh]
  exact List.append_nil _

/-! ## A turn -/

theorem handsOver_settle (h : s.Sound) : s.HandsOver s.settleDeeds [] s.settle.2 := by
  -- A task that the reader has turned away from only ends.
  have hab : s.abandoned.flatMap (Task.deeds s.alive) = [] := by
    rw [List.flatMap_eq_nil_iff]
    intro task ht
    simp [Task.deeds, h.abandoned task ht]
  unfold settleDeeds settle
  rw [hab, Task.workAll_closed h.abandoned]
  simp only [List.nil_append]
  split
  · next task rescan hh =>
    obtain ⟨hs, hk⟩ := task.work_deeds s.alive s.scanner
    have hd : (s.handoff.bind (·.task)).toList.flatMap (Task.deeds s.alive) =
        task.deeds s.alive := by
      rw [hh]
      exact List.append_nil _
    rw [hd]
    refine ⟨id, fun _ => id, fun _ => hs, fun ha => ?_⟩
    have hheld : s.held? = task.offered := by rw [held?, hh]; rfl
    rw [hheld]
    exact hk ha (h.opened _ task hh rfl)
  · next hh =>
    have hd : (s.handoff.bind (·.task)).toList.flatMap (Task.deeds s.alive) = [] := by
      rcases ho : s.handoff with _ | ⟨_ | task, rescan⟩
      · rfl
      · rfl
      · exact absurd ho (hh task rescan)
    rw [hd]
    exact handsOver_of_same rfl rfl id fun _ => id

theorem handsOver_collect (retries : Nat) (s : Session) :
    s.HandsOver [] (s.collect retries).1.tokens (s.collect retries).2 := by
  have hnone (h : Option Handoff) (hs : s.held? = none) (hh : h.bind (·.offered?) = none) :
      s.HandsOver [] [] { s with handoff := h } := by
    refine ⟨id, fun _ => id, fun _ => rfl, fun _ => ?_⟩
    unfold held? at hs ⊢
    rw [hs, hh]
    rfl
  unfold collect
  rcases hh : s.handoff with _ | ⟨_ | ⟨_ | k, closed⟩, _ | _⟩
  case some.some.some.false | some.some.some.true =>
    refine ⟨id, fun _ => id, fun _ => rfl, fun _ => ?_⟩
    rw [held?, hh]
    rfl
  all_goals exact hnone _ (by rw [held?, hh]; rfl) rfl

theorem handsOver_receive (hh : s.handoff = none) (text : String) (last : Bool) :
    s.HandsOver [.append (Text.bytes (Text.joined text ++ if last then "\n" else ""))] []
      (s.receive text last) := by
  refine ⟨id, fun _ => id, fun _ => rfl, fun _ => ?_⟩
  rw [held?_of_handoff hh]
  rfl

theorem handsOver_answered (hh : s.handoff = none) (retries : Nat) (a : Answer) :
    s.HandsOver a.deeds (Note.scanned (resultNotes (s.answered retries a).1
      (s.answered retries a).2.1)) (s.answered retries a).2.2 := by
  have hline (text : String) := handsOver_receive hh text false
  have hlast (text : String) := handsOver_receive hh text true
  simp only [Bool.false_eq_true, if_false, if_true, String.append_empty] at hline hlast
  cases a with
  | line text => exact hline text
  | eof rest => exact hlast rest
  | fatal rest reason => exact hlast rest
  | retry => exact s.handsOver_refl
  | cancelled => exact s.handsOver_refl

theorem alive_sendAll (signals : List Signal) (s : Session) :
    (s.sendAll signals).alive = true ↔ s.alive = true ∧ .shutdown ∉ signals := by
  induction signals generalizing s with
  | nil => simp [sendAll]
  | cons signal signals ih =>
    rw [sendAll, List.foldl_cons, ← sendAll, ih]
    cases signal <;> simp [send]

theorem handsOver_called (supplier : Supplier) (s : Session) :
    s.HandsOver [] [] (s.called supplier) := by
  obtain ⟨alive, h⟩ :=
    sendAll_eq supplier.ask.1.signals { s with supplier := some supplier.ask.2 }
  have hsent (ha : (s.called supplier).alive = true) := (alive_sendAll _ _).1 ha
  refine handsOver_of_same ?_ (handoff_called supplier s) (fun ha => (hsent ha).1) ?_
  · rw [called, h]
  · rintro ha ⟨hf, hs⟩
    rw [called, h]
    refine ⟨hf, fun hm => ?_⟩
    rcases List.mem_append.1 hm with hm | hm
    · exact hs hm
    · exact (hsent ha).2 hm

theorem scanned_resultNotes {es : List Event} {r : Turn} (he : es.any Event.isFailure = false)
    (hk : ∀ k ∈ r.tokens, k.kind.isText = true) :
    Note.scanned (resultNotes es r) = r.tokens := by
  unfold resultNotes
  rcases r with (k | _ | f | _) | n
  case done.token =>
    have ht : k.kind.isText = true := hk k List.mem_cons_self
    simp only [he, Bool.false_eq_true, if_false, Note.scanned, ht, if_true]
    rfl
  all_goals rfl

theorem Genuine.isText_collect (h : s.Genuine) (retries : Nat) :
    ∀ k ∈ (s.collect retries).1.tokens, k.kind.isText = true := by
  unfold Session.collect
  split
  · next k closed rescan hh =>
    intro k' hk'
    obtain rfl := List.mem_singleton.1 hk'
    exact h k' (by rw [held?, hh]; rfl)
  · intro k hk
    cases hk
  · intro k hk
    cases hk

theorem scanned_asked (text : Option String) (notes : List Note) :
    Note.scanned (.asked :: (text.toList.map .appended ++ notes)) = Note.scanned notes := by
  cases text <;> rfl

theorem handsOver_ask {supplier : Supplier} (hw : s.Waits) (hh : s.handoff = none)
    (hp : s.supplier = some supplier) (retries : Nat) :
    s.HandsOver ((supplier.ask.1.answer.map Answer.deeds).getD [])
      (Note.scanned (s.turnNotes retries)) (s.turn retries).2.2 := by
  have ht := turn_of_supplier hw hh hp retries
  have hc := handsOver_called supplier s
  cases ha : supplier.ask.1.answer with
  | some a =>
    rw [ask_of_some ha] at ht
    rw [turnNotes_of_request hp ht, scanned_asked, ht]
    exact hc.trans (handsOver_answered ((handoff_called supplier s).trans hh) retries a)
  | none =>
    rw [ask_of_none ha] at ht
    have hr : resultNotes []
        (if (s.called supplier).signals.isEmpty then .done .blocked else .again retries) = [] := by
      split <;> rfl
    rw [turnNotes_of_request hp ht, scanned_asked, ht, hr]
    exact hc

theorem handsOver_turn (h : s.Sound) (hg : s.Genuine) (retries : Nat) :
    s.HandsOver s.turnDeeds (Note.scanned (s.turnNotes retries)) (s.turn retries).2.2 := by
  cases s.finds with
  | failure hf =>
    have ht := turn_of_failure hf retries
    have hd : s.turnDeeds = [] := by simp [turnDeeds, hf]
    rw [hd, turnNotes_of_turn ht rfl, ht]
    exact s.handsOver_refl
  | @signal signal later hf hs =>
    have ht := turn_of_signal hf hs retries
    have hd : s.turnDeeds = [] := by simp [turnDeeds, hs]
    cases signal with
    | interrupt =>
      rw [hd, turnNotes_of_turn ht rfl, ht]
      refine handsOver_of_same rfl rfl id fun _ hu => ⟨hu.1, fun hm => hu.2 ?_⟩
      rw [hs]
      exact List.mem_cons_of_mem _ hm
    | shutdown =>
      rw [ht]
      exact handsOver_of_dead rfl
  | dead hf hs ha =>
    rw [turn_of_dead hf hs ha]
    exact handsOver_of_dead ha
  | task hw hh =>
    have ht := turn_of_handoff hw hh retries
    have hd : s.turnDeeds = s.settleDeeds := by
      obtain ⟨o, ho⟩ := Option.isSome_iff_exists.1 hh
      simp [turnDeeds, hw.failure, hw.signals, hw.alive, ho]
    obtain ⟨hreq, hfail⟩ := any_of_noted s.settle_unasked.1
    rw [await_eq] at ht
    have hn : s.turnNotes retries = resultNotes s.settle.1 (s.settle.2.collect retries).1 :=
      turnNotes_of_turn ht hreq
    rw [hd, hn, ht, scanned_resultNotes hfail (hg.settle.isText_collect retries)]
    have hset := (handsOver_settle h).trans (handsOver_collect retries s.settle.2)
    rwa [List.append_nil] at hset
  | @supplier supplier hw hh hp =>
    have hd : s.turnDeeds = (supplier.ask.1.answer.map Answer.deeds).getD [] := by
      simp [turnDeeds, hw.failure, hw.signals, hw.alive, hh, hp]
    rw [hd]
    exact handsOver_ask hw hh hp retries
  | nothing hw hh hp =>
    have ht := turn_of_no_supplier hw hh hp retries
    have hd : s.turnDeeds = [] := by
      simp [turnDeeds, hw.failure, hw.signals, hw.alive, hh, hp]
    rw [hd, turnNotes_of_turn ht rfl, ht]
    exact s.handsOver_refl

/-! ## A run -/

theorem handsOver_pull (h : s.Sound) (hg : s.Genuine) (retries : Nat) :
    s.HandsOver (s.pullDeeds retries) (Note.scanned (s.pullNotes retries))
      (s.pull retries).2.2 := by
  fun_induction pullDeeds retries s with
  | case1 retries s es p t hs =>
    have ht := handsOver_turn h hg retries
    rw [hs] at ht
    rw [pullNotes_of_done hs, pull_of_done hs]
    exact ht
  | case2 retries s es n t hs ih =>
    have ht := handsOver_turn h hg retries
    have hst := h.turn retries
    have hgt := (turn_balanced hg retries).1
    rw [hs] at ht hst hgt
    rw [pullNotes_of_again hs, pull_of_again hs, Note.scanned_append]
    exact ht.trans (ih hst hgt)

theorem handsOver_drain (h : s.Sound) (hg : s.Genuine) :
    s.HandsOver s.drainDeeds (Note.scanned s.drainNotes) s.drain.2.2.2 := by
  have hsound (s : Session) (h : s.Sound) : s.next.2.2.Sound :=
    pull_keeps (fun retries _ h => h.turn retries) 0 h
  fun_induction drainDeeds s with
  | case1 s es k t hs ih =>
    have ht := handsOver_pull h hg 0
    have hst := hsound s h
    have hgt := (pull_balanced hg 0).1
    rw [← next, hs] at ht hgt
    rw [hs] at hst
    rw [drainNotes_of_token hs, drain_of_token hs, Note.scanned_append]
    exact ht.trans (ih hst hgt)
  | case2 s hn =>
    rcases hs : s.next with ⟨es, p, t⟩
    have hp : ∀ k, p ≠ .token k := fun k hk => hn es k t (hk ▸ hs)
    have ht := handsOver_pull h hg 0
    rw [← next, hs] at ht
    rw [drainNotes_of_end hs hp, drain_of_end hs hp]
    exact ht

end Session

end ShellTokens
