import ShellTokens.Proofs.Scanner.Chunks

/-!
# What is ahead of a scanner

Where the text of a token does not matter, it is enough to know the bytes ahead of the scanner, its
state and what it remembers.
-/

namespace ShellTokens.Scanner

/-- The scanner is in the state with the bytes ahead, and remembers what `past` remembers. -/
structure Ahead (state : State) (ahead : List UInt8) (past s : Scanner) : Prop where
  sound : s.cursor.Sound
  unread : s.cursor.unread = ahead
  state : s.state = state
  saved : s.saved = past.saved
  after : s.after = past.after
  depth : s.depth = past.depth

variable {s : Scanner} {past : Scanner} {state : State} {ahead : List UInt8}

theorem Ahead.marked (h : Ahead state ahead past s) : Ahead state ahead past s.marked :=
  ⟨sound_marked h.sound, (unread_marked s).trans h.unread, (state_marked s).trans h.state,
    (saved_marked s).trans h.saved, (after_marked s).trans h.after,
    (depth_marked s).trans h.depth⟩

theorem Ahead.peek (h : Ahead state ahead past s) : s.cursor.peek = Rune.read ahead := by
  rw [Cursor.peek_eq, h.unread]

theorem Ahead.respond (h : Ahead state ahead past s) (banged : Bool) :
    s.marked.state.respond banged s.marked.cursor.peek =
      state.respond banged (Rune.read ahead) := by
  rw [h.marked.peek, h.marked.state]

/-- The scanner with the next rune read. -/
def reading (s : Scanner) : Scanner := { s.marked with cursor := s.marked.cursor.next.2 }

theorem Ahead.reading (h : Ahead state ahead past s) :
    Ahead state (ahead.drop (Rune.read ahead).width) past s.reading := by
  have hm := h.marked
  refine ⟨hm.sound.next, ?_, hm.state, hm.saved, hm.after, hm.depth⟩
  rw [Scanner.reading, Cursor.unread_next, hm.peek, hm.unread]

theorem Ahead.back (h : Ahead state ahead past s) :
    Ahead state ahead past { s.marked with cursor := s.marked.cursor.next.2.back } := by
  have hm := h.marked
  refine ⟨hm.sound.back_next, ?_, hm.state, hm.saved, hm.after, hm.depth⟩
  rw [Cursor.unread_back_next, hm.unread]

theorem Ahead.become (h : Ahead state ahead past s) (next : State) :
    Ahead next ahead past { s with state := next } :=
  ⟨h.sound, h.unread, rfl, h.saved, h.after, h.depth⟩

theorem Ahead.step_keep (h : Ahead state ahead past s)
    (hm : ∀ banged, state.respond banged (Rune.read ahead) = .keep) :
    s.step = .silent s.reading := by
  rw [step, look, h.respond, hm, Scanner.reading]

theorem Ahead.step_enter {next : State} (h : Ahead state ahead past s)
    (hm : ∀ banged, state.respond banged (Rune.read ahead) = .enter next) :
    s.step = .silent { s.reading with state := next } := by
  rw [step, look, h.respond, hm, Scanner.reading]

theorem Ahead.step_take {kind : Kind} (h : Ahead state ahead past s)
    (hm : ∀ banged, state.respond banged (Rune.read ahead) = .take kind) :
    s.step = s.reading.finish kind := by
  rw [step, look, h.respond, hm, Scanner.reading]

theorem read_newline (later : List UInt8) :
    Rune.read ('\n'.toUInt8 :: later) = .char '\n' :=
  Rune.read_utf8EncodeChar_append '\n' later

end ShellTokens.Scanner
