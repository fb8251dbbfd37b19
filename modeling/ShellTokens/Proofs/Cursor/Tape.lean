import ShellTokens.Proofs.Cursor
import ShellTokens.Text.Bytes

/-!
# A tape that keeps everything

A cursor lets go of the bytes in front of its token whenever more input arrives. A tape keeps every
byte that has ever come in, and its places are counted from the first of them. Nothing that can be
asked tells the two apart.
-/

namespace ShellTokens

namespace Cursor

/-- What can be done with a cursor. `skip` goes over the rune that has just been looked at, and
`take` hands out the text of the token and begins the next one. -/
inductive Step where
  | append (input : List UInt8)
  | next
  | skip
  | back
  | mark
  | take
  | clear
  deriving DecidableEq, Repr

def perform (c : Cursor) : Step → Cursor
  | .append input => c.append input
  | .next => c.next.2
  | .skip => c.skip c.peek.width
  | .back => c.back
  | .mark => c.mark
  | .take => c.mark
  | .clear => {}

/-- All that can be asked: the rune that is ahead, what reading and taking hand out, the first byte
of the token, and whether a token is under way at all. -/
structure View where
  peek : Rune
  next : Rune
  take : String
  firstByte? : Option UInt8
  isDrained : Bool
  deriving DecidableEq, Repr

def view (c : Cursor) : View := ⟨c.peek, c.next.1, c.text, c.firstByte?, c.isDrained⟩

end Cursor

/-- `start` is where the token under way begins and `position` is where the next rune is read.
`lastRune?` is where the rune begins that can be put back. -/
structure Tape where
  bytes : List UInt8 := []
  start : Nat := 0
  position : Nat := 0
  lastRune? : Option Nat := none
  deriving DecidableEq, Repr

namespace Tape

/-! ## The same without letting go -/

def peek (t : Tape) : Rune := Rune.read (t.bytes.drop t.position)

def skip (width : Nat) (t : Tape) : Tape :=
  { t with position := t.position + width, lastRune? := some t.position }

def next (t : Tape) : Rune × Tape := (t.peek, t.skip t.peek.width)

def backTo (t : Tape) : Nat := t.lastRune?.getD t.position

def back (t : Tape) : Tape := { t with position := t.backTo, lastRune? := none }

def mark (t : Tape) : Tape := { t with start := t.position }

def text (t : Tape) : String := Text.lossy ((t.bytes.take t.position).drop t.start)

def firstByte? (t : Tape) : Option UInt8 := t.bytes[t.start]?

def isDrained (t : Tape) : Bool := t.start = t.bytes.length

def append (input : List UInt8) (t : Tape) : Tape := { t with bytes := t.bytes ++ input }

def clear (t : Tape) : Tape :=
  { t with start := t.bytes.length, position := t.bytes.length, lastRune? := none }

def perform (t : Tape) : Cursor.Step → Tape
  | .append input => t.append input
  | .next => t.next.2
  | .skip => t.skip t.peek.width
  | .back => t.back
  | .mark => t.mark
  | .take => t.mark
  | .clear => t.clear

def view (t : Tape) : Cursor.View := ⟨t.peek, t.next.1, t.text, t.firstByte?, t.isDrained⟩

/-- A rune is not put back if it lies in front of the token. -/
def allows (t : Tape) : Cursor.Step → Bool
  | .back => t.start ≤ t.backTo
  | _ => true

def allowsAll : Tape → List Cursor.Step → Bool
  | _, [] => true
  | t, step :: later => t.allows step && (t.perform step).allowsAll later

end Tape

namespace Cursor

variable {t : Tape} {c : Cursor} {gone width : Nat}

/-! ## What a cursor has of a tape -/

/-- The cursor has let go of the first `gone` bytes of the tape, and is where the tape is. -/
structure Keeps (gone : Nat) (t : Tape) (c : Cursor) : Prop where
  buffer : c.buffer.toList = t.bytes.drop gone
  start : t.start = gone + c.start
  position : t.position = gone + c.position
  lastRune : t.backTo + c.lastWidth = t.position
  start_le : t.start ≤ t.position
  position_le : t.position ≤ t.bytes.length

namespace Keeps

theorem size_eq (h : Keeps gone t c) : c.buffer.size = t.bytes.length - gone := by
  rw [← Array.length_toList, h.buffer, List.length_drop]

theorem sound (h : Keeps gone t c) : c.Sound := by
  have hs := h.start
  have hp := h.position
  have hsp := h.start_le
  have hpl := h.position_le
  refine ⟨by omega, ?_⟩
  rw [h.size_eq]
  omega

theorem unread_eq (h : Keeps gone t c) : c.unread = t.bytes.drop t.position := by
  rw [unread, h.buffer, List.drop_drop, ← h.position]

theorem pending_eq (h : Keeps gone t c) : c.pending = t.bytes.drop t.start := by
  rw [pending, h.buffer, List.drop_drop, ← h.start]

theorem peek_eq (h : Keeps gone t c) : c.peek = t.peek := by
  rw [Cursor.peek_eq, h.unread_eq, Tape.peek]

theorem tokenBytes_eq (h : Keeps gone t c) :
    c.tokenBytes = (t.bytes.take t.position).drop t.start := by
  have hn : c.position - c.start = t.position - t.start := by
    rw [h.start, h.position, Nat.add_sub_add_left]
  rw [Cursor.tokenBytes_eq, ← pending, h.pending_eq, hn, List.drop_take]

theorem isDrained_eq (h : Keeps gone t c) : c.isDrained = t.isDrained := by
  have hs := h.start
  have hsp := h.start_le
  have hpl := h.position_le
  rw [Cursor.isDrained, Tape.isDrained, h.size_eq, decide_eq_decide]
  omega

theorem view_eq (h : Keeps gone t c) : c.view = t.view := by
  have hf : c.firstByte? = t.firstByte? := by
    rw [firstByte?_eq, h.pending_eq, List.head?_drop, Tape.firstByte?]
  have ht : c.text = t.text := by rw [Cursor.text, h.tokenBytes_eq, Tape.text]
  rw [view, Tape.view, Cursor.next, Tape.next, h.peek_eq, hf, ht, h.isDrained_eq]

/-! ## One step -/

/-- All that lies in front of the token is let go, and nothing else. -/
theorem append (h : Keeps gone t c) (input : List UInt8) :
    Keeps t.start (t.append input) (c.append input) := by
  have hs := h.start
  have hp := h.position
  have hsp := h.start_le
  have hpl := h.position_le
  refine ⟨?_, rfl, ?_, h.lastRune, hsp, ?_⟩
  · rw [buffer_append, h.pending_eq, Tape.append, List.drop_append_of_le_length (by omega)]
  · simp only [Tape.append, Cursor.append, trim]
    omega
  · simp only [Tape.append, List.length_append]
    omega

theorem skip (h : Keeps gone t c) (hw : width ≤ c.unread.length) :
    Keeps gone (t.skip width) (c.skip width) := by
  have hp := h.position
  have hsp := h.start_le
  have hpl := h.position_le
  rw [h.unread_eq, List.length_drop] at hw
  refine ⟨h.buffer, h.start, ?_, rfl, ?_, ?_⟩ <;> simp only [Tape.skip, Cursor.skip] <;> omega

theorem next (h : Keeps gone t c) : Keeps gone t.next.2 c.next.2 := by
  have hw := Rune.width_read_le c.unread
  rw [← Cursor.peek_eq] at hw
  rw [Tape.next, Cursor.next, ← h.peek_eq]
  exact h.skip hw

theorem back (h : Keeps gone t c) (ha : t.start ≤ t.backTo) : Keeps gone t.back c.back := by
  have hs := h.start
  have hp := h.position
  have hl := h.lastRune
  have hpl := h.position_le
  refine ⟨h.buffer, hs, ?_, rfl, ha, ?_⟩ <;> simp only [Tape.back, Cursor.back] <;> omega

theorem mark (h : Keeps gone t c) : Keeps gone t.mark c.mark :=
  ⟨h.buffer, h.position, h.position, h.lastRune, Nat.le_refl _, h.position_le⟩

theorem clear (t : Tape) : Keeps t.bytes.length t.clear {} :=
  ⟨List.drop_length.symm, rfl, rfl, rfl, Nat.le_refl _, Nat.le_refl _⟩

theorem perform (h : Keeps gone t c) {step : Step} (ha : t.allows step = true) :
    ∃ gone', Keeps gone' (t.perform step) (c.perform step) := by
  cases step with
  | append input => exact ⟨_, h.append input⟩
  | next => exact ⟨gone, h.next⟩
  | skip => exact ⟨gone, h.next⟩
  | back => exact ⟨gone, h.back (of_decide_eq_true ha)⟩
  | mark => exact ⟨gone, h.mark⟩
  | take => exact ⟨gone, h.mark⟩
  | clear => exact ⟨_, clear t⟩

/-! ## All steps -/

theorem run (h : Keeps gone t c) {steps : List Step} (ha : t.allowsAll steps = true) :
    ∃ gone', Keeps gone' (steps.foldl Tape.perform t) (steps.foldl Cursor.perform c) := by
  induction steps generalizing gone t c with
  | nil => exact ⟨gone, h⟩
  | cons step later ih =>
    rw [Tape.allowsAll, Bool.and_eq_true] at ha
    obtain ⟨gone', h'⟩ := h.perform ha.1
    exact ih h' ha.2

end Keeps

theorem sound_run {steps : List Step} (h : Tape.allowsAll {} steps = true) :
    (steps.foldl perform {}).Sound := by
  obtain ⟨gone, hk⟩ := (Keeps.clear {}).run h
  exact hk.sound

/-- Whatever is done, a cursor answers as the tape does. What it has in store when input has arrived
is the tape from the beginning of the token on, no byte more and no byte less. -/
theorem view_run {steps : List Step} (h : Tape.allowsAll {} steps = true) :
    let c := steps.foldl perform {}
    let t := steps.foldl Tape.perform {}
    c.view = t.view ∧
      ∀ input, (c.append input).buffer.toList =
        (t.append input).bytes.drop (t.append input).start := by
  intro c t
  obtain ⟨gone, hk⟩ := (Keeps.clear {}).run h
  exact ⟨hk.view_eq, fun input => (hk.append input).buffer⟩

theorem view_in_token :
    let steps : List Step := [.append (Text.bytes "ls \"a" ++ [0xE4, 0xBD]), .next, .next, .take,
      .next, .mark, .next, .skip, .append [0xA0], .next, .append (Text.bytes "b"), .back]
    Tape.allowsAll {} steps = true ∧
      (steps.foldl perform {}).view = (steps.foldl Tape.perform {}).view ∧
      (steps.foldl perform {}).view = ⟨.char '你', .char '你', "\"a", some 0x22, false⟩ ∧
      ((steps.foldl perform {}).append [0x22]).buffer.toList =
        Text.bytes "\"a你b\"" := by
  -- Input arrives in the middle of a character of a token that has been begun, and the character
  -- is put back when even more has come in.
  intro steps
  have ha : Tape.allowsAll {} steps = true := by decide +kernel
  obtain ⟨hv, hb⟩ := view_run ha
  exact ⟨ha, hv, by decide +kernel, (hb [0x22]).trans (by decide +kernel)⟩

end Cursor

end ShellTokens
