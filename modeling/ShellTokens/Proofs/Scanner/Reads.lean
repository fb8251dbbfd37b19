import ShellTokens.Proofs.Scanner.Drain
import ShellTokens.Proofs.Text.Whole

/-!
# Scanning text

In front of whole characters the scanner goes from state to state by them alone. The bytes stay out
of sight, and a token's text is made of the characters that have been read for it.
-/

namespace ShellTokens

open Text (encoded)

/-! ## A cursor in a text -/

structure Cursor.Reads (done ahead : List Char) (c : Cursor) : Prop where
  sound : c.Sound
  tokenBytes : c.tokenBytes = encoded done
  unread : c.unread = encoded ahead

namespace Cursor.Reads

variable {done ahead : List Char} {ch : Char} {c : Cursor}

theorem peek (h : c.Reads done (ch :: ahead)) : c.peek = .char ch := by
  rw [peek_eq, h.unread, Text.encoded_cons, Rune.read_utf8EncodeChar_append]

theorem next (h : c.Reads done (ch :: ahead)) : c.next.2.Reads (done ++ [ch]) ahead := by
  have hl : c.peek.width = (String.utf8EncodeChar ch).length := by
    rw [h.peek, Rune.width, String.length_utf8EncodeChar]
  refine ⟨h.sound.next, ?_, ?_⟩
  · rw [h.sound.tokenBytes_next, hl, h.tokenBytes, h.unread, Text.encoded_cons, List.take_left,
      Text.encoded_append, Text.encoded_cons]
    exact congrArg _ (List.append_nil _).symm
  · rw [unread_next, hl, h.unread, Text.encoded_cons, List.drop_left]

theorem back_next (h : c.Reads done ahead) : c.next.2.back.Reads done ahead :=
  ⟨h.sound.back_next, by rw [tokenBytes_back_next, h.tokenBytes],
    by rw [unread_back_next, h.unread]⟩

theorem mark (h : c.Reads done ahead) : c.mark.Reads [] ahead :=
  ⟨h.sound.mark, tokenBytes_mark c, h.unread⟩

theorem text (h : c.Reads done ahead) : c.text = String.ofList done := by
  rw [Cursor.text, h.tokenBytes, Text.lossy_encoded]

theorem banged (h : c.Reads done ahead) :
    c.firstByte? = some '!'.toUInt8 ↔ (done ++ ahead).head? = some '!' := by
  rw [firstByte?_eq, h.sound.pending_eq, h.tokenBytes, h.unread, ← Text.encoded_append,
    Text.head?_encoded]

end Cursor.Reads

namespace Scanner

/-! ## A scanner in a text -/

/-- Where a scanner stands in a text. The last token was of the kind `last`. -/
structure At (state : State) (last : Option Kind) (done ahead : List Char) (s : Scanner) :
    Prop where
  cursor : s.marked.cursor.Reads done ahead
  state : s.state = state
  after : s.after = last

variable {state next : State} {last : Option Kind} {done ahead : List Char} {c d : Char}
  {s : Scanner}

/-- What comes out is the same from a scanner that stands there. -/
def Reaches (state : State) (last : Option Kind) (done ahead : List Char) (s : Scanner) : Prop :=
  ∃ t : Scanner, t.drain = s.drain ∧ t.At state last done ahead

theorem at_of_inside (hs : s.state = state) (hne : state ≠ .blank) (ha : s.after = last)
    (hc : s.cursor.Reads done ahead) : s.At state last done ahead := by
  refine ⟨?_, hs, ha⟩
  rwa [marked, if_neg (hs ▸ hne)]

theorem at_of_blank (hs : s.state = .blank) (ha : s.after = last)
    (hc : s.cursor.Reads done ahead) : s.At .blank last [] ahead := by
  refine ⟨?_, hs, ha⟩
  rw [marked, if_pos hs]
  exact hc.mark

theorem At.respond (h : s.At state last done (c :: ahead)) :
    s.marked.state.respond (s.marked.cursor.firstByte? = some '!'.toUInt8) s.marked.cursor.peek =
      state.onChar ((done ++ [c]).head? = some '!') c := by
  have hb : (done ++ c :: ahead).head? = (done ++ [c]).head? := by cases done <;> rfl
  have hf := h.cursor.banged
  rw [hb] at hf
  rw [h.cursor.peek, state_marked, h.state, State.respond, decide_eq_decide.2 hf]

theorem At.keep (h : s.At state last done (c :: ahead)) (hne : state ≠ .blank)
    (hm : ∀ banged, state.onChar banged c = .keep) :
    s.Reaches state last (done ++ [c]) ahead := by
  have hs : s.step = .silent { s.marked with cursor := s.marked.cursor.next.2 } := by
    rw [step, look, h.respond, hm]
  refine ⟨_, (drain_of_silent hs).symm, ?_⟩
  exact at_of_inside ((state_marked s).trans h.state) hne ((after_marked s).trans h.after)
    h.cursor.next

theorem At.skip (h : s.At .blank last done (c :: ahead))
    (hm : ∀ banged, State.onChar .blank banged c = .keep) : s.Reaches .blank last [] ahead := by
  have hs : s.step = .silent { s.marked with cursor := s.marked.cursor.next.2 } := by
    rw [step, look, h.respond, hm]
  refine ⟨_, (drain_of_silent hs).symm, ?_⟩
  exact at_of_blank ((state_marked s).trans h.state) ((after_marked s).trans h.after) h.cursor.next

theorem At.enter (h : s.At state last done (c :: ahead)) (hne : next ≠ .blank)
    (hm : ∀ banged, state.onChar banged c = .enter next) :
    s.Reaches next last (done ++ [c]) ahead := by
  have hs : s.step =
      .silent { s.marked with cursor := s.marked.cursor.next.2, state := next } := by
    rw [step, look, h.respond, hm]
  refine ⟨_, (drain_of_silent hs).symm, ?_⟩
  exact at_of_inside rfl hne ((after_marked s).trans h.after) h.cursor.next

theorem At.become (h : s.At state last done (c :: ahead)) (hne : next ≠ .blank)
    (hm : ∀ banged, state.onChar banged c = .become next) :
    s.Reaches next last done (c :: ahead) := by
  have hs : s.step =
      .silent { s.marked with cursor := s.marked.cursor.next.2.back, state := next } := by
    rw [step, look, h.respond, hm]
  refine ⟨_, (drain_of_silent hs).symm, ?_⟩
  exact at_of_inside rfl hne ((after_marked s).trans h.after) h.cursor.back_next

theorem At.escape (h : s.At state last done (c :: d :: ahead)) (hne : next ≠ .blank)
    (hm : ∀ banged, state.onChar banged c = .escape next) :
    s.Reaches next last (done ++ [c, d]) ahead := by
  have hs : s.step = .silent { s.marked with
      cursor := s.marked.cursor.next.2, state := .afterBackslash, saved := some next } := by
    rw [step, look, h.respond, hm]
  generalize ht : ({ s.marked with
    cursor := s.marked.cursor.next.2, state := .afterBackslash, saved := some next } : Scanner) = t
    at hs
  have hat : t.At .afterBackslash last (done ++ [c]) (d :: ahead) := by
    subst ht
    exact at_of_inside rfl (by decide) ((after_marked s).trans h.after) h.cursor.next
  have ht' : t.step = .silent (resumed { t.marked with cursor := t.marked.cursor.next.2 }) := by
    rw [step, look, hat.respond]
    rfl
  refine ⟨_, ((drain_of_silent hs).trans (drain_of_silent ht')).symm, ?_⟩
  have hr : resumed { t.marked with cursor := t.marked.cursor.next.2 } =
      { t with cursor := t.marked.cursor.next.2, state := next, saved := none } := by
    subst ht
    rfl
  rw [hr]
  have hn := hat.cursor.next
  rw [List.append_assoc] at hn
  exact at_of_inside rfl hne hat.after hn

/-! ## Through a word -/

/-- From one state to another over the characters of a word, where `behind` comes behind it. -/
inductive Leads (behind : Char) : State → List Char → State → Prop
  | refl (state : State) : Leads behind state [] state
  | keep {state last : State} {c : Char} {word : List Char} (hne : state ≠ .blank)
      (hm : ∀ banged, state.onChar banged c = .keep) (h : Leads behind state word last) :
      Leads behind state (c :: word) last
  | enter {state next last : State} {c : Char} {word : List Char} (hne : next ≠ .blank)
      (hm : ∀ banged, state.onChar banged c = .enter next) (h : Leads behind next word last) :
      Leads behind state (c :: word) last
  | escape {state next last : State} {c d : Char} {word : List Char} (hne : next ≠ .blank)
      (hm : ∀ banged, state.onChar banged c = .escape next) (h : Leads behind next word last) :
      Leads behind state (c :: d :: word) last
  | become {state next last : State} {word : List Char} (hne : next ≠ .blank)
      (hm : ∀ banged, state.onChar banged (word.headD behind) = .become next)
      (h : Leads behind next word last) : Leads behind state word last

theorem Reaches.trans {mid : State} {read left : List Char}
    (h : s.Reaches state last done ahead)
    (h' : ∀ t : Scanner, t.At state last done ahead → t.Reaches mid last read left) :
    s.Reaches mid last read left := by
  obtain ⟨t, ht, hat⟩ := h
  obtain ⟨u, hu, hau⟩ := h' t hat
  exact ⟨u, hu.trans ht, hau⟩

theorem At.leads {word : List Char} (hl : Leads c state word next)
    (h : s.At state last done (word ++ c :: ahead)) :
    s.Reaches next last (done ++ word) (c :: ahead) := by
  induction hl generalizing done s with
  | refl state =>
    rw [List.append_nil]
    exact ⟨s, rfl, h⟩
  | keep hne hm _ ih =>
    rw [List.append_cons]
    exact (h.keep hne hm).trans fun t ht => ih ht
  | enter hne hm _ ih =>
    rw [List.append_cons]
    exact (h.enter hne hm).trans fun t ht => ih ht
  | escape hne hm _ ih =>
    rw [List.append_cons, List.append_cons, List.append_assoc done]
    exact (h.escape hne hm).trans fun t ht => ih ht
  | @become state next last word hne hm _ ih =>
    cases word with
    | nil => exact (h.become hne hm).trans fun t ht => ih ht
    | cons d word => exact (h.become hne hm).trans fun t ht => ih ht

/-! ## The end of a token -/

/-- Nothing holds the token back: it is no newline in a command that needs another line. -/
def counts (kind : Kind) (last : Option Kind) : Prop :=
  ¬ (kind = .newline ∧ last.any Kind.continuesLine = true)

def Yields (t : Token) (ahead : List Char) (s : Scanner) : Prop :=
  ∃ u : Scanner, s.emissions = .token t :: u.emissions ∧ s.behind = u.behind ∧
    u.At .blank (some t.kind) [] ahead

theorem finish_yields {kind : Kind} {u : Scanner} (hs : s.step = u.finish kind)
    (hc : counts kind u.after) (h : u.cursor.Reads done ahead) :
    s.Yields (Token.normal kind (String.ofList done)) ahead := by
  have hf : ¬ (kind = .newline ∧ u.continuesLine = true) := hc
  rw [finish, if_neg hf, h.text] at hs
  exact ⟨_, emissions_of_emit hs, behind_of_emit hs, at_of_blank rfl rfl h.mark⟩

theorem At.take {kind : Kind} (h : s.At state last done (c :: ahead)) (hc : counts kind last)
    (hm : state.onChar ((done ++ [c]).head? = some '!') c = .take kind) :
    s.Yields (Token.normal kind (String.ofList (done ++ [c]))) ahead := by
  have hs : s.step = finish kind { s.marked with cursor := s.marked.cursor.next.2 } := by
    rw [step, look, h.respond, hm]
  refine finish_yields hs ?_ h.cursor.next
  rwa [after_marked, h.after]

theorem At.leave {kind : Kind} (h : s.At state last done (c :: ahead)) (hc : counts kind last)
    (hm : ∀ banged, state.onChar banged c = .leave kind) :
    s.Yields (Token.normal kind (String.ofList done)) (c :: ahead) := by
  have hs : s.step = finish kind { s.marked with cursor := s.marked.cursor.next.2.back } := by
    rw [step, look, h.respond, hm]
  refine finish_yields hs ?_ h.cursor.back_next
  rwa [after_marked, h.after]

theorem Reaches.yields {t : Token} {left : List Char} (h : s.Reaches state last done ahead)
    (h' : ∀ u : Scanner, u.At state last done ahead → u.Yields t left) : s.Yields t left := by
  obtain ⟨u, hu, hat⟩ := h
  obtain ⟨v, he, hb, hv⟩ := h' u hat
  refine ⟨v, ?_, ?_, hv⟩
  · rw [emissions, ← hu, ← he, emissions]
  · rw [behind, ← hu, ← hb, behind]

/-- The characters of a word are one token of the kind, where `behind` comes behind them. -/
inductive Scans (behind : Char) (kind : Kind) : List Char → Prop
  | take {state : State} {word : List Char} {c : Char} (h : Leads c .blank word state)
      (hm : state.onChar ((word ++ [c]).head? = some '!') c = .take kind) :
      Scans behind kind (word ++ [c])
  | leave {state : State} {word : List Char} (h : Leads behind .blank word state)
      (hm : ∀ banged, state.onChar banged behind = .leave kind) : Scans behind kind word

theorem At.scans {kind : Kind} {word : List Char} (hw : Scans c kind word)
    (hc : counts kind last) (h : s.At .blank last [] (word ++ c :: ahead)) :
    s.Yields (Token.normal kind (String.ofList word)) (c :: ahead) := by
  cases hw with
  | take hl hm =>
    rw [List.append_assoc] at h
    exact (h.leads hl).yields fun u hu => hu.take hc hm
  | leave hl hm => exact (h.leads hl).yields fun u hu => hu.leave hc hm

end Scanner

end ShellTokens
