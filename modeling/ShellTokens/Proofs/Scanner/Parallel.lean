import ShellTokens.Proofs.Scanner.Invisible
import ShellTokens.Proofs.Text.Split

/-!
# The same token with another beginning

Two scanners that are in the same state over the same bytes go on side by side until the token under
way is done, even if it began differently. Its text is all that comes out differently.
-/

namespace ShellTokens

open Text (encoded)

/-! ## States that go on until an end is seen -/

namespace State

/-- The state goes on until an end of its own is seen, and no token begins before that. -/
def isOpen : State → Bool
  | comment | symbol | singleQuoted | doubleQuoted | bangString => true
  | _ => false

def keepsText : State → Bool
  | symbol | singleQuoted | doubleQuoted | bangString => true
  | _ => false

def makes : State → Kind
  | comment => .newline
  | singleQuoted => .singleQuoted
  | doubleQuoted => .doubleQuoted
  | bangString => .bangString
  | _ => .symbol

def opening : State → List Char
  | singleQuoted => ['\'']
  | doubleQuoted => ['"']
  | bangString => ['!', '"']
  | _ => []

def closing : State → List Char
  | singleQuoted => ['\'']
  | doubleQuoted | bangString => ['"']
  | _ => []

end State

/-- The move stays with the token, or it ends the token that the state makes. -/
def Move.StaysIn (home : State) (r : Rune) : Move → Prop
  | .enter _ | .become _ => False
  | .escape back => back = home
  | .take kind => kind = home.makes ∧ encoded home.closing <:+ r.bytes
  | .leave kind => kind = home.makes ∧ home.closing = []
  | .halt | .keep | .resume | .reject _ => True

namespace State

variable {s home : State} {r : Rune}

theorem makes_ne_newline (h : home.keepsText = true) : home.makes ≠ .newline := by
  cases home <;> first | decide | cases h

theorem makes_eq_newline (h : home.isOpen = true) (hk : home.keepsText = false) :
    home.makes = .newline := by
  cases home <;> first | rfl | (cases h; done) | cases hk

theorem staysIn_of_isOpen (h : home.isOpen = true) (banged : Bool) (r : Rune) :
    (home.respond banged r).StaysIn home r := by
  cases r with
  | exhausted => exact trivial
  | invalid byte => cases home <;> first | exact trivial | cases h
  | char c =>
    cases home <;> simp only [isOpen, Bool.false_eq_true] at h
    all_goals
      simp only [respond, onChar, otherwise]
      repeat' split
    all_goals simp_all [Move.StaysIn, makes, closing, Rune.bytes, encoded]

theorem staysIn_afterBackslash (home : State) (banged : Bool) (r : Rune) :
    (afterBackslash.respond banged r).StaysIn home r := by
  cases r <;> exact trivial

theorem respond_banged (h : s.isOpen = true ∨ s = .afterBackslash) (banged : Bool) (r : Rune) :
    s.respond banged r = s.respond false r := by
  cases s <;> first | rfl | (cases r <;> simp [isOpen] at h)

end State

theorem Rune.take_read (bs : List UInt8) : bs.take (read bs).width = (read bs).bytes := by
  rcases hr : read bs with c | byte | _
  · obtain ⟨ahead, rfl⟩ := exists_of_read_char hr
    rw [width, ← String.length_utf8EncodeChar, List.take_left, bytes]
  · obtain ⟨ahead, rfl, -⟩ := exists_of_read_invalid hr
    rfl
  · rfl

/-! ## Two cursors -/

structure Cursor.Parallel (p q w : List UInt8) (c d : Cursor) : Prop where
  left : c.Sound
  right : d.Sound
  tokenBytes : c.tokenBytes = p ++ w
  tokenBytes' : d.tokenBytes = q ++ w
  unread : d.unread = c.unread

namespace Cursor.Parallel

variable {p q w : List UInt8} {c d : Cursor}

theorem peek (h : Cursor.Parallel p q w c d) : d.peek = c.peek := by
  rw [peek_eq, peek_eq, h.unread]

theorem next (h : Cursor.Parallel p q w c d) :
    Cursor.Parallel p q (w ++ c.peek.bytes) c.next.2 d.next.2 := by
  have hb : c.unread.take c.peek.width = c.peek.bytes := by rw [peek_eq, Rune.take_read]
  refine ⟨h.left.next, h.right.next, ?_, ?_, ?_⟩
  · rw [h.left.tokenBytes_next, h.tokenBytes, hb, List.append_assoc]
  · rw [h.right.tokenBytes_next, h.tokenBytes', h.peek, h.unread, hb, List.append_assoc]
  · rw [unread_next, unread_next, h.peek, h.unread]

theorem back_next (h : Cursor.Parallel p q w c d) :
    Cursor.Parallel p q w c.next.2.back d.next.2.back := by
  refine ⟨h.left.back_next, h.right.back_next, ?_, ?_, ?_⟩
  · rw [tokenBytes_back_next, h.tokenBytes]
  · rw [tokenBytes_back_next, h.tokenBytes']
  · rw [unread_back_next, unread_back_next, h.unread]

end Cursor.Parallel

/-! ## Two scanners -/

/-- The same token with another text, in which `more` stands behind `pre`. -/
def Token.Amended (pre more : String) (t u : Token) : Prop :=
  u.kind = t.kind ∧ ∃ post, t.text = pre ++ post ∧ u.text = pre ++ more ++ post

/-- The first token is amended, and all else is the same. -/
inductive Amended (home : State) (pre more : String) : List Emission → List Emission → Prop
  | nil : Amended home pre more [] []
  | malformed (byte : UInt8) (state : State) {es fs : List Emission}
      (h : Amended home pre more es fs) :
      Amended home pre more (.malformed byte state :: es) (.malformed byte state :: fs)
  | token (hh : home.keepsText = true) {t u : Token} (h : t.Amended pre more u)
      (es : List Emission) : Amended home pre more (.token t :: es) (.token u :: es)
  /-- The state keeps no text. -/
  | same (hh : home.keepsText = false) (es : List Emission) : Amended home pre more es es

namespace Scanner

variable {home : State} {p q w : List UInt8} {pre more : String} {s t : Scanner}

structure Parallel (home : State) (p q w : List UInt8) (s t : Scanner) : Prop where
  cursor : Cursor.Parallel p q w s.cursor t.cursor
  state : t.state = s.state
  saved : t.saved = s.saved
  after : t.after = s.after
  depth : t.depth = s.depth
  stays : s.state = home ∨ s.state = .afterBackslash ∧ s.saved = some home

inductive Step.Parallel (home : State) (p q : List UInt8) (pre more : String) : Step → Step → Prop
  | halt {w : List UInt8} {s t : Scanner} (h : Scanner.Parallel home p q w s t) :
      Step.Parallel home p q pre more (.halt s) (.halt t)
  | silent {w : List UInt8} {s t : Scanner} (h : Scanner.Parallel home p q w s t) :
      Step.Parallel home p q pre more (.silent s) (.silent t)
  | malformed (byte : UInt8) (state : State) {w : List UInt8} {s t : Scanner}
      (h : Scanner.Parallel home p q w s t) :
      Step.Parallel home p q pre more (.emit (.malformed byte state) s)
        (.emit (.malformed byte state) t)
  | token (hh : home.keepsText = true) {k l : Token} (hk : k.Amended pre more l) {s t : Scanner}
      (h : s.Alike t) : Step.Parallel home p q pre more (.emit (.token k) s) (.emit (.token l) t)
  | same (hh : home.keepsText = false) {x y : Step} (h : Step.Lacks [] x y) :
      Step.Parallel home p q pre more x y

def Amends (home : State) (p q : List UInt8) (pre more : String) : Prop :=
  home.keepsText = true → ∀ w, encoded home.closing <:+ w →
    (Token.normal home.makes (Text.lossy (p ++ w))).Amended pre more
      (Token.normal home.makes (Text.lossy (q ++ w)))

theorem Parallel.finish (h : Parallel home p q w s t) (hh : home.isOpen = true)
    (ha : Amends home p q pre more) (hw : encoded home.closing <:+ w) :
    Step.Parallel home p q pre more (s.finish home.makes) (t.finish home.makes) := by
  by_cases hk : home.keepsText = true
  · have hne : home.makes ≠ .newline := State.makes_ne_newline hk
    have hs : s.cursor.text = Text.lossy (p ++ w) := congrArg Text.lossy h.cursor.tokenBytes
    have ht : t.cursor.text = Text.lossy (q ++ w) := congrArg Text.lossy h.cursor.tokenBytes'
    have hamended := ha hk w hw
    unfold Scanner.finish
    rw [if_neg fun hn => hne hn.1, if_neg fun hn => hne hn.1, hs, ht]
    refine .token hk hamended (alike_iff.2 ⟨h.cursor.left.mark, h.cursor.right.mark, ?_⟩)
    unfold standing record
    simp only [Cursor.unread_mark, h.cursor.unread, h.saved, h.depth, hamended.1, if_true]
  · rw [Bool.not_eq_true] at hk
    have hn : home.makes = .newline := State.makes_eq_newline hh hk
    have hs : Ahead s.state s.cursor.unread s s := ⟨h.cursor.left, rfl, rfl, rfl, rfl, rfl⟩
    have ht : Ahead t.state s.cursor.unread s t :=
      ⟨h.cursor.right, h.cursor.unread, rfl, h.saved, h.after, h.depth⟩
    rw [hn]
    exact .same hk (hs.finish_newline ht)

theorem Parallel.resumed (h : Parallel home p q w s t) (hh : home.isOpen = true) :
    Parallel home p q w s.resumed t.resumed := by
  rcases h.stays with hs | ⟨hs, hv⟩
  · have hne : s.state ≠ .afterBackslash := by
      rw [hs]
      rintro rfl
      cases hh
    rw [Scanner.resumed, Scanner.resumed, h.state, if_neg hne, if_neg hne]
    exact h
  · rw [Scanner.resumed, Scanner.resumed, h.state, if_pos hs, if_pos hs, h.saved, hv]
    exact ⟨h.cursor, rfl, rfl, h.after, h.depth, .inl rfl⟩

theorem Parallel.ne_blank (h : Parallel home p q w s t) (hh : home.isOpen = true) :
    s.state ≠ .blank := by
  rcases h.stays with hs | ⟨hs, -⟩
  · rw [hs]
    rintro rfl
    cases hh
  · rw [hs]
    nofun

theorem Parallel.step (h : Parallel home p q w s t) (hh : home.isOpen = true)
    (ha : Amends home p q pre more) : Step.Parallel home p q pre more s.step t.step := by
  have hb := h.ne_blank hh
  have hms : s.marked = s := if_neg hb
  have hmt : t.marked = t := if_neg (h.state ▸ hb)
  have hopen : s.state.isOpen = true ∨ s.state = .afterBackslash := by
    rcases h.stays with hs | ⟨hs, -⟩
    · exact .inl (hs ▸ hh)
    · exact .inr hs
  have hread : Parallel home p q (w ++ s.cursor.peek.bytes)
      { s with cursor := s.cursor.next.2 } { t with cursor := t.cursor.next.2 } :=
    ⟨h.cursor.next, h.state, h.saved, h.after, h.depth, h.stays⟩
  have hleft : Parallel home p q w
      { s with cursor := s.cursor.next.2.back } { t with cursor := t.cursor.next.2.back } :=
    ⟨h.cursor.back_next, h.state, h.saved, h.after, h.depth, h.stays⟩
  have hmove (banged : Bool) :
      (s.state.respond banged s.cursor.peek).StaysIn home s.cursor.peek := by
    rcases h.stays with hs | ⟨hs, -⟩
    · rw [hs]
      exact State.staysIn_of_isOpen hh banged _
    · rw [hs]
      exact State.staysIn_afterBackslash home banged _
  -- How the token began matters behind a `|` alone, and no state here is one of those.
  have hm (banged banged' : Bool) : t.state.respond banged t.cursor.peek =
      s.state.respond banged' s.cursor.peek := by
    rw [h.state, h.cursor.peek]
    exact (State.respond_banged hopen _ _).trans (State.respond_banged hopen _ _).symm
  rw [Scanner.step, Scanner.step, hms, hmt]
  unfold Scanner.look
  simp only [hm _ (s.cursor.firstByte? = some '!'.toUInt8)]
  have hmove := hmove (s.cursor.firstByte? = some '!'.toUInt8)
  generalize s.state.respond _ s.cursor.peek = move at hmove
  cases move with
  | halt => exact .halt h
  | keep => exact .silent hread
  | enter next => exact hmove.elim
  | become next => exact hmove.elim
  | escape back =>
    cases hmove
    exact .silent ⟨hread.cursor, rfl, rfl, h.after, h.depth, .inr ⟨rfl, rfl⟩⟩
  | resume => exact .silent (hread.resumed hh)
  | take kind =>
    obtain ⟨rfl, hw⟩ := hmove
    exact hread.finish hh ha (hw.trans (List.suffix_append w _))
  | leave kind =>
    obtain ⟨rfl, hc⟩ := hmove
    exact hleft.finish hh ha (by rw [hc]; exact List.nil_suffix)
  | reject byte =>
    have he : Emission.malformed byte t.state = .malformed byte s.state := by rw [h.state]
    simp only [he]
    exact .malformed byte s.state (hread.resumed hh)

/-! ## To the end of the input -/

end Scanner

end ShellTokens
