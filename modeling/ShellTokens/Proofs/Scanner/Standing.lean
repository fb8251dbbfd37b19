import ShellTokens.Proofs.Cursor
import ShellTokens.Proofs.Text.Rune
import ShellTokens.Scanner.Scan

/-!
# Where a scanner stands

What a scanner emits from here on is decided by its standing: the bytes of the token under way, the
bytes ahead, and what it remembers of the tokens before. The first words only look on.
-/

namespace ShellTokens.Scanner

/-- Between tokens there is no token under way, whatever was read last. -/
structure Standing where
  token : List UInt8
  unread : List UInt8
  state : State
  saved : Option State
  after : Option Kind
  depth : Nat

def standing (s : Scanner) : Standing where
  token := if s.state = .blank then [] else s.cursor.tokenBytes
  unread := s.cursor.unread
  state := s.state
  saved := s.saved
  after := s.after
  depth := s.depth

/-- `s` stands where `t` stands, but has not been given `input`, which `t` has at the end. -/
structure Lacks (input : List UInt8) (s t : Scanner) : Prop where
  left : s.cursor.Sound
  right : t.cursor.Sound
  standing : t.standing = { s.standing with unread := s.standing.unread ++ input }

/-- Nothing tells the two apart that has to do with their input. -/
def Alike (s t : Scanner) : Prop := Lacks [] s t

inductive Step.Lacks (input : List UInt8) : Step → Step → Prop
  | halt {s t : Scanner} (h : Scanner.Lacks input s t) : Step.Lacks input (.halt s) (.halt t)
  | silent {s t : Scanner} (h : Scanner.Lacks input s t) : Step.Lacks input (.silent s) (.silent t)
  | emit (e : Emission) {s t : Scanner} (h : Scanner.Lacks input s t) :
      Step.Lacks input (.emit e s) (.emit e t)

theorem alike_iff {s t : Scanner} :
    s.Alike t ↔ s.cursor.Sound ∧ t.cursor.Sound ∧ t.standing = s.standing := by
  constructor
  · rintro ⟨hs, ht, h⟩
    exact ⟨hs, ht, by simpa using h⟩
  · rintro ⟨hs, ht, h⟩
    exact ⟨hs, ht, by simpa using h⟩

theorem Alike.refl {s : Scanner} (h : s.cursor.Sound) : s.Alike s := alike_iff.2 ⟨h, h, rfl⟩

theorem Alike.symm {s t : Scanner} (h : s.Alike t) : t.Alike s := by
  obtain ⟨hs, ht, he⟩ := alike_iff.1 h
  exact alike_iff.2 ⟨ht, hs, he.symm⟩

theorem Alike.trans {s t u : Scanner} (h : s.Alike t) (h' : t.Alike u) : s.Alike u := by
  obtain ⟨hs, -, he⟩ := alike_iff.1 h
  obtain ⟨-, hu, he'⟩ := alike_iff.1 h'
  exact alike_iff.2 ⟨hs, hu, he'.trans he⟩

theorem lacks_append {s : Scanner} (h : s.cursor.Sound) (input : List UInt8) :
    Lacks input s (s.append input) := by
  refine ⟨h, h.append input, ?_⟩
  simp only [standing, append, h.tokenBytes_append, h.unread_append]

theorem sound_append {s : Scanner} (h : s.cursor.Sound) (input : List UInt8) :
    (s.append input).cursor.Sound :=
  h.append input

theorem Lacks.alike_append {input : List UInt8} {s t : Scanner} (h : Lacks input s t) :
    t.Alike (s.append input) := by
  have ha := lacks_append h.left input
  exact alike_iff.2 ⟨h.right, ha.right, ha.standing.trans h.standing.symm⟩

theorem Lacks.append {input : List UInt8} {s t : Scanner} (h : Lacks input s t)
    (more : List UInt8) : Lacks (input ++ more) s (t.append more) := by
  have ha := lacks_append h.right more
  refine ⟨h.left, ha.right, ?_⟩
  rw [ha.standing, h.standing, List.append_assoc]

theorem Alike.lacks {input : List UInt8} {s t u : Scanner} (h : s.Alike t) (h' : Lacks input t u) :
    Lacks input s u := by
  obtain ⟨hs, -, he⟩ := alike_iff.1 h
  exact ⟨hs, h'.right, by rw [h'.standing, he]⟩

theorem Alike.append {s t : Scanner} (h : s.Alike t) (input : List UInt8) :
    (s.append input).Alike (t.append input) :=
  (Lacks.append h input).alike_append.symm

/-! ## Where a token begins

Between tokens the next one begins at the reading position. Nothing else is changed by that.
-/

theorem unread_marked (s : Scanner) : s.marked.cursor.unread = s.cursor.unread := by
  unfold marked
  split <;> rfl

theorem state_marked (s : Scanner) : s.marked.state = s.state := by
  unfold marked
  split <;> rfl

theorem saved_marked (s : Scanner) : s.marked.saved = s.saved := by
  unfold marked
  split <;> rfl

theorem after_marked (s : Scanner) : s.marked.after = s.after := by
  unfold marked
  split <;> rfl

theorem depth_marked (s : Scanner) : s.marked.depth = s.depth := by
  unfold marked
  split <;> rfl

theorem words_marked (s : Scanner) : s.marked.words = s.words := by
  unfold marked
  split <;> rfl

/-! ## One rune -/

variable {input : List UInt8} {s t : Scanner}

/-- Two scanners over the same bytes that remember the same. -/
structure Twins (input : List UInt8) (s t : Scanner) : Prop where
  cursor : Cursor.Lacks input s.cursor t.cursor
  state : t.state = s.state
  saved : t.saved = s.saved
  after : t.after = s.after
  depth : t.depth = s.depth

theorem Twins.lacks (h : Twins input s t) : Lacks input s t := by
  refine ⟨h.cursor.left, h.cursor.right, ?_⟩
  simp only [standing, h.cursor.tokenBytes, h.cursor.unread, h.state, h.saved, h.after, h.depth]

theorem Lacks.marked (h : Lacks input s t) : Twins input s.marked t.marked := by
  have he := h.standing
  simp only [Scanner.standing, Standing.mk.injEq] at he
  obtain ⟨htok, hun, hst, hsv, haf, hdp⟩ := he
  unfold Scanner.marked
  by_cases hb : s.state = .blank
  · rw [if_pos hb, if_pos (hst.trans hb)]
    refine ⟨⟨h.left.mark, h.right.mark, ?_, hun⟩, hst, hsv, haf, hdp⟩
    rw [Cursor.tokenBytes_mark, Cursor.tokenBytes_mark]
  · rw [if_neg hb, if_neg (hst ▸ hb)]
    rw [if_neg hb, if_neg (hst ▸ hb)] at htok
    exact ⟨⟨h.left, h.right, htok, hun⟩, hst, hsv, haf, hdp⟩

theorem Twins.text (h : Twins input s t) : t.cursor.text = s.cursor.text := by
  rw [Cursor.text, Cursor.text, h.cursor.tokenBytes]

theorem Twins.finish (h : Twins input s t) (kind : Kind) :
    Step.Lacks input (s.finish kind) (t.finish kind) := by
  have hc : t.continuesLine = s.continuesLine := by rw [continuesLine, continuesLine, h.after]
  have hm : Twins input { s with cursor := s.cursor.mark, state := .blank }
      { t with cursor := t.cursor.mark, state := .blank } :=
    ⟨h.cursor.mark, rfl, h.saved, h.after, h.depth⟩
  unfold Scanner.finish
  rw [hc, h.text]
  split
  · exact .silent hm.lacks
  · refine .emit _ (Twins.lacks ⟨hm.cursor, rfl, hm.saved, rfl, ?_⟩)
    simp only [record, h.depth]

theorem Twins.resumed (h : Twins input s t) : Twins input s.resumed t.resumed := by
  unfold Scanner.resumed
  rw [h.state]
  split
  · exact ⟨h.cursor, by rw [h.saved], rfl, h.after, h.depth⟩
  · exact h

theorem Twins.look (h : Twins input s t) (hp : t.cursor.peek = s.cursor.peek)
    (hf : s.cursor.peek ≠ .exhausted → t.cursor.firstByte? = s.cursor.firstByte?) :
    Step.Lacks input s.look t.look := by
  have hm : t.state.respond (t.cursor.firstByte? = some '!'.toUInt8) t.cursor.peek =
      s.state.respond (s.cursor.firstByte? = some '!'.toUInt8) s.cursor.peek := by
    rw [h.state, hp]
    cases hr : s.cursor.peek with
    | exhausted => rfl
    | char c => rw [hf (by simp [hr])]
    | invalid b => rw [hf (by simp [hr])]
  have hn := h.cursor.next hp
  have hb := h.cursor.back_next
  have hread : Twins input { s with cursor := s.cursor.next.2 }
      { t with cursor := t.cursor.next.2 } :=
    ⟨hn, h.state, h.saved, h.after, h.depth⟩
  unfold Scanner.look
  simp only [hm]
  cases s.state.respond (s.cursor.firstByte? = some '!'.toUInt8) s.cursor.peek with
  | halt => exact .halt h.lacks
  | keep => exact .silent hread.lacks
  | enter next => exact .silent (Twins.lacks ⟨hn, rfl, h.saved, h.after, h.depth⟩)
  | become next => exact .silent (Twins.lacks ⟨hb, rfl, h.saved, h.after, h.depth⟩)
  | escape back => exact .silent (Twins.lacks ⟨hn, rfl, rfl, h.after, h.depth⟩)
  | resume => exact .silent hread.resumed.lacks
  | take kind => exact hread.finish kind
  | leave kind =>
    have hleft : Twins input { s with cursor := s.cursor.next.2.back }
        { t with cursor := t.cursor.next.2.back } :=
      ⟨hb, h.state, h.saved, h.after, h.depth⟩
    exact hleft.finish kind
  | reject byte =>
    have he : Emission.malformed byte t.state = .malformed byte s.state := by rw [h.state]
    simp only [he]
    exact .emit _ hread.resumed.lacks

/-- A step that is not held up by the end of the input is the same with more input. -/
theorem Lacks.step (h : Lacks input s t) (hs : ∀ u, s.step ≠ .halt u) :
    Step.Lacks input s.step t.step := by
  have hm := h.marked
  have hne : s.marked.cursor.peek ≠ .exhausted := by
    intro he
    refine hs s.marked ?_
    simp only [Scanner.step, Scanner.look, he, State.respond]
  exact hm.look (hm.cursor.peek hne) fun _ => hm.cursor.firstByte? hne

theorem Step.Lacks.of_halt {next : Step} {u : Scanner} (h : Step.Lacks input (.halt u) next) :
    ∃ v, next = .halt v ∧ Scanner.Lacks input u v := by
  cases h with
  | halt h => exact ⟨_, rfl, h⟩

theorem Step.Lacks.of_silent {next : Step} {u : Scanner}
    (h : Step.Lacks input (.silent u) next) :
    ∃ v, next = .silent v ∧ Scanner.Lacks input u v := by
  cases h with
  | silent h => exact ⟨_, rfl, h⟩

theorem Step.Lacks.of_emit {next : Step} {e : Emission} {u : Scanner}
    (h : Step.Lacks input (.emit e u) next) :
    ∃ v, next = .emit e v ∧ Scanner.Lacks input u v := by
  cases h with
  | emit e h => exact ⟨_, rfl, h⟩

theorem Lacks.step_silent (h : Lacks input s t) {u : Scanner} (hs : s.step = .silent u) :
    ∃ v, t.step = .silent v ∧ Lacks input u v := by
  have hst := h.step (by simp [hs])
  rw [hs] at hst
  exact hst.of_silent

theorem Lacks.step_emit (h : Lacks input s t) {e : Emission} {u : Scanner}
    (hs : s.step = .emit e u) : ∃ v, t.step = .emit e v ∧ Lacks input u v := by
  have hst := h.step (by simp [hs])
  rw [hs] at hst
  exact hst.of_emit

theorem Alike.step_halt (h : s.Alike t) {u : Scanner} (hs : s.step = .halt u) :
    ∃ v, t.step = .halt v ∧ u.Alike v := by
  have hm := h.marked
  have hp : t.marked.cursor.peek = s.marked.cursor.peek := by
    rw [Cursor.peek_eq, Cursor.peek_eq, hm.cursor.unread, List.append_nil]
  have hst : Step.Lacks [] s.step t.step := hm.look hp hm.cursor.firstByte?
  rw [hs] at hst
  exact hst.of_halt

theorem alike_marked (h : s.cursor.Sound) : s.Alike s.marked := by
  rw [alike_iff]
  unfold Scanner.marked
  by_cases hb : s.state = .blank
  · rw [if_pos hb]
    refine ⟨h, h.mark, ?_⟩
    simp only [standing, hb, if_true, Cursor.unread_mark]
  · rw [if_neg hb]
    exact ⟨h, h, rfl⟩

theorem sound_marked (h : s.cursor.Sound) : s.marked.cursor.Sound := (alike_marked h).right

end ShellTokens.Scanner
