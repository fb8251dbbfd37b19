import ShellTokens.Session.Reader

/-!
# What each turn does

A turn has one case for each thing that the reader may find, and reading on is one turn after the
other.
-/

namespace ShellTokens.Session

variable {s t : Session}

/-- Nothing but the input decides what the reader does next. -/
structure Waits (s : Session) : Prop where
  failure : s.failure = none
  signals : s.signals = []
  alive : s.alive = true

theorem turn_of_failure {f : Failure} (hf : s.failure = some f) (retries : Nat) :
    s.turn retries = ([], .done (.failed f), s) := by
  unfold turn
  rw [hf]

theorem turn_of_signal {signal : Signal} {later : List Signal} (hf : s.failure = none)
    (hs : s.signals = signal :: later) (retries : Nat) :
    s.turn retries = { s with signals := later }.heed retries signal := by
  unfold turn
  simp only [hf, hs]

theorem turn_of_dead (hf : s.failure = none) (hs : s.signals = []) (ha : s.alive = false)
    (retries : Nat) : s.turn retries = ([], .done .nothing, s) := by
  unfold turn
  simp only [hf, hs, ha, Bool.not_false, if_true]

theorem turn_of_no_supplier (h : s.Waits) (hh : s.handoff = none) (hp : s.supplier = none)
    (retries : Nat) : s.turn retries = ([], .done .nothing, s) := by
  unfold turn
  simp only [h.failure, h.signals, h.alive, hh, hp, Bool.not_true, Bool.false_eq_true, if_false]

theorem turn_of_supplier {supplier : Supplier} (h : s.Waits) (hh : s.handoff = none)
    (hp : s.supplier = some supplier) (retries : Nat) :
    s.turn retries = s.ask retries supplier := by
  unfold turn
  simp only [h.failure, h.signals, h.alive, hh, hp, Bool.not_true, Bool.false_eq_true, if_false]

theorem turn_of_handoff (h : s.Waits) (hh : s.handoff.isSome = true) (retries : Nat) :
    s.turn retries = s.await retries := by
  obtain ⟨o, ho⟩ := Option.isSome_iff_exists.1 hh
  unfold turn
  rw [h.failure, h.signals, h.alive, ho]
  rfl

/-- What the reader finds when it looks. -/
inductive Finds (s : Session) : Prop
  | failure {f : Failure} (hf : s.failure = some f)
  | signal {signal : Signal} {later : List Signal} (hf : s.failure = none)
      (hs : s.signals = signal :: later)
  | dead (hf : s.failure = none) (hs : s.signals = []) (ha : s.alive = false)
  | task (hw : s.Waits) (hh : s.handoff.isSome = true)
  | supplier {supplier : Supplier} (hw : s.Waits) (hh : s.handoff = none)
      (hp : s.supplier = some supplier)
  | nothing (hw : s.Waits) (hh : s.handoff = none) (hp : s.supplier = none)

theorem finds (s : Session) : s.Finds := by
  rcases hf : s.failure with _ | f
  · rcases hs : s.signals with _ | ⟨signal, later⟩
    · rcases ha : s.alive with _ | _
      · exact .dead hf hs ha
      · have hw : s.Waits := ⟨hf, hs, ha⟩
        rcases hh : s.handoff with _ | o
        · rcases hp : s.supplier with _ | supplier
          · exact .nothing hw hh hp
          · exact .supplier hw hh hp
        · exact .task hw (by rw [hh]; rfl)
    · exact .signal hf hs
  · exact .failure hf

/-! ## Waiting for the scan task -/

/-- What the reader does once the task has had its turn. -/
def collect (retries : Nat) (s : Session) : Turn × Session :=
  match s.handoff with
  | some { task := some { offered := some t, closed }, rescan } =>
    (.done (.token t), { s with handoff := some { task := some { closed }, rescan } })
  | some { rescan := true, .. } => (.again retries, s.spawn)
  | _ => (.again retries, { s with handoff := none })

theorem await_eq (retries : Nat) (s : Session) :
    s.await retries = (s.settle.1, s.settle.2.collect retries) := by
  unfold await collect
  simp only
  rcases s.settle.2.handoff with _ | ⟨_ | ⟨_ | k, closed⟩, _ | _⟩ <;> rfl

/-! ## Calling the supplier -/

def called (supplier : Supplier) (s : Session) : Session :=
  { s with supplier := some supplier.ask.2 }.sendAll supplier.ask.1.signals

theorem handoff_called (supplier : Supplier) (s : Session) :
    (s.called supplier).handoff = s.handoff := by
  obtain ⟨alive, h⟩ :=
    sendAll_eq supplier.ask.1.signals { s with supplier := some supplier.ask.2 }
  rw [called, h]

theorem ask_of_some {supplier : Supplier} {a : Answer} (ha : supplier.ask.1.answer = some a)
    (retries : Nat) (s : Session) :
    s.ask retries supplier =
      (.requesting s.label (s.lines + 1) :: ((s.called supplier).answered retries a).1,
        ((s.called supplier).answered retries a).2) := by
  unfold ask
  simp only [ha]
  rfl

theorem ask_of_none {supplier : Supplier} (ha : supplier.ask.1.answer = none) (retries : Nat)
    (s : Session) :
    s.ask retries supplier =
      ([.requesting s.label (s.lines + 1)],
        if (s.called supplier).signals.isEmpty then .done .blocked else .again retries,
        s.called supplier) := by
  unfold ask
  simp only [ha]
  rfl

/-! ## One turn after the other -/

theorem pull_of_done {retries : Nat} {es : List Event} {p : Pull}
    (h : s.turn retries = (es, .done p, t)) : s.pull retries = (es, p, t) := by
  rw [pull]
  split
  · next hs => rw [hs] at h; cases h; rfl
  · next hs => rw [hs] at h; cases h

theorem pull_of_again {retries n : Nat} {es : List Event}
    (h : s.turn retries = (es, .again n, t)) :
    s.pull retries = (es ++ (t.pull n).1, (t.pull n).2) := by
  rw [pull]
  split
  · next hs => rw [hs] at h; cases h
  · next hs => rw [hs] at h; cases h; rfl

theorem drain_of_token {es : List Event} {k : Token} (h : s.next = (es, .token k, t)) :
    s.drain = (es ++ t.drain.1, ⟨k, t.firstWord?, t.lines⟩ :: t.drain.2.1, t.drain.2.2) := by
  rw [drain]
  split
  · next hs => rw [hs] at h; cases h; rfl
  · next hn hs => rw [h] at hs; cases hs; exact absurd rfl (hn k)

theorem drain_of_end {es : List Event} {p : Pull} (h : s.next = (es, p, t))
    (hp : ∀ k, p ≠ .token k) : s.drain = (es, [], p, t) := by
  rw [drain]
  split
  · next hs => rw [hs] at h; cases h; exact absurd rfl (hp _)
  · next hs => rw [hs] at h; cases h; rfl

/-! ## Induction over turns and over tokens -/

theorem pull_induction {motive : Nat → Session → Prop}
    (done : ∀ retries s es p t, s.turn retries = (es, .done p, t) → motive retries s)
    (again : ∀ retries s es n t, s.turn retries = (es, .again n, t) → motive n t →
      motive retries s) (retries : Nat) (s : Session) : motive retries s := by
  fun_induction pull retries s with
  | case1 retries s es p t hs => exact done retries s es p t hs
  | case2 retries s es n t hs _ =>
    rename_i ih
    exact again retries s es n t hs ih

theorem drain_induction {motive : Session → Prop}
    (token : ∀ s es k t, s.next = (es, .token k, t) → motive t → motive s)
    (last : ∀ s es p t, s.next = (es, p, t) → (∀ k, p ≠ .token k) → motive s) (s : Session) :
    motive s := by
  fun_induction drain s with
  | case1 s es k t hs _ =>
    rename_i ih
    exact token s es k t hs ih
  | case2 s es p t hn hs => exact last s es p t hs hn

/-- What every turn keeps holds when the reader comes back. -/
theorem pull_keeps {P : Session → Prop} (hP : ∀ retries s, P s → P (s.turn retries).2.2)
    (retries : Nat) (hs : P s) : P (s.pull retries).2.2 := by
  induction retries, s using pull_induction with
  | done retries s es p t h =>
    have ht := hP retries s hs
    rw [h] at ht
    rw [pull_of_done h]
    exact ht
  | again retries s es n t h ih =>
    have ht := hP retries s hs
    rw [h] at ht
    rw [pull_of_again h]
    exact ih ht

theorem drain_keeps {P : Session → Prop} (hP : ∀ retries s, P s → P (s.turn retries).2.2)
    (hs : P s) : P s.drain.2.2.2 := by
  induction s using drain_induction with
  | token s es k t h ih =>
    have ht := pull_keeps hP 0 hs
    rw [← next, h] at ht
    rw [drain_of_token h]
    exact ih ht
  | last s es p t h hn =>
    have ht := pull_keeps hP 0 hs
    rw [← next, h] at ht
    rw [drain_of_end h hn]
    exact ht

end ShellTokens.Session
