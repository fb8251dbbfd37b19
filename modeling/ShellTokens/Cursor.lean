import ShellTokens.Text.Lossy

/-!
# A growing buffer, read one rune at a time

The bytes of the token under way are kept until the token is done, since all of them make its text.
What lies before it goes when more input arrives.
-/

namespace ShellTokens

/-- `start` is where the token under way begins and `position` is where the next rune is read.
`lastWidth` is the width of the rune read last, so that it can be put back. -/
structure Cursor where
  buffer : Array UInt8 := #[]
  start : Nat := 0
  position : Nat := 0
  lastWidth : Nat := 0
  deriving DecidableEq, Repr

namespace Cursor

/-! ## What is in the buffer -/

/-- The bytes of no finished token. -/
def pending (c : Cursor) : List UInt8 := c.buffer.toList.drop c.start

/-- The bytes still to be read. -/
def unread (c : Cursor) : List UInt8 := c.buffer.toList.drop c.position

/-- The bytes of the token under way that have been read. -/
def tokenBytes (c : Cursor) : List UInt8 := (c.buffer.extract c.start c.position).toList

def firstByte? (c : Cursor) : Option UInt8 := c.buffer[c.start]?

/-- Every byte belongs to a finished token. -/
def isDrained (c : Cursor) : Bool := c.start = c.buffer.size

/-! ## Reading -/

/-- The rune at the reading position. Its sequence lies within four bytes. -/
def peek (c : Cursor) : Rune := Rune.read (c.buffer.extract c.position (c.position + 4)).toList

def skip (width : Nat) (c : Cursor) : Cursor :=
  { c with position := c.position + width, lastWidth := width }

def next (c : Cursor) : Rune × Cursor := (c.peek, c.skip c.peek.width)

/-- Puts the last rune back. It can be put back only once. -/
def back (c : Cursor) : Cursor := { c with position := c.position - c.lastWidth, lastWidth := 0 }

def mark (c : Cursor) : Cursor := { c with start := c.position }

def text (c : Cursor) : String := Text.lossy c.tokenBytes

/-! ## Growing -/

/-- Lets go of what lies before the token under way. -/
def trim (c : Cursor) : Cursor :=
  { c with buffer := c.buffer.extract c.start, start := 0, position := c.position - c.start }

def append (input : List UInt8) (c : Cursor) : Cursor :=
  { c.trim with buffer := c.trim.buffer ++ input }

/-! ## Reading moves through the buffer -/

theorem length_unread (c : Cursor) : c.unread.length = c.buffer.size - c.position := by
  simp [unread]

/-- What is read depends on the unread bytes only. -/
theorem peek_eq (c : Cursor) : c.peek = Rune.read c.unread := by
  have h : (c.buffer.extract c.position (c.position + 4)).toList = c.unread.take 4 := by
    simp [unread]
  rw [peek, h, Rune.read_take_four]

theorem unread_skip (c : Cursor) (width : Nat) : (c.skip width).unread = c.unread.drop width := by
  simp [unread, skip, List.drop_drop]

theorem unread_mark (c : Cursor) : c.mark.unread = c.unread := rfl

theorem length_unread_next (c : Cursor) :
    c.next.2.unread.length + c.peek.width = c.unread.length := by
  have h := Rune.width_read_le c.unread
  rw [← peek_eq] at h
  simp only [next, unread_skip, List.length_drop]
  omega

/-- Putting the rune back that was just read leaves the unread bytes as they were. -/
theorem unread_back_next (c : Cursor) : c.next.2.back.unread = c.unread := by
  simp [next, back, skip, unread]

/-- Trimming takes nothing away from what is still to be read. -/
theorem length_unread_append_le (c : Cursor) (input : List UInt8) :
    (c.append input).unread.length ≤ c.unread.length + input.length := by
  simp [unread, append, trim]
  omega

end Cursor

end ShellTokens
