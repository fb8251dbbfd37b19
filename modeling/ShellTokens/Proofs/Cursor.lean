import ShellTokens.Cursor
import ShellTokens.Proofs.Text.Rune

/-!
# What a cursor stands for

A cursor divides the bytes of no finished token in two: those of the token under way that have been
read, and those that are still ahead. All that a cursor answers depends on these two parts, and so
it does not show how much of the buffer has been let go.
-/

namespace ShellTokens.Cursor

/-- The token under way begins no later than the reading position, and that is in the buffer. -/
structure Sound (c : Cursor) : Prop where
  start_le : c.start ≤ c.position
  position_le : c.position ≤ c.buffer.size

/-! ## The two parts -/

theorem tokenBytes_eq (c : Cursor) :
    c.tokenBytes = (c.buffer.toList.drop c.start).take (c.position - c.start) := by
  simp [tokenBytes]

theorem Sound.pending_eq {c : Cursor} (h : c.Sound) : c.pending = c.tokenBytes ++ c.unread := by
  have hd : c.unread = c.pending.drop (c.position - c.start) := by
    rw [unread, pending, List.drop_drop, Nat.add_sub_cancel' h.start_le]
  rw [tokenBytes_eq, hd, ← pending, List.take_append_drop]

theorem firstByte?_eq (c : Cursor) : c.firstByte? = c.pending.head? := by
  simp [firstByte?, pending, List.head?_drop]

theorem Sound.isDrained_eq {c : Cursor} (h : c.Sound) : c.isDrained = c.pending.isEmpty := by
  have hs := Nat.le_trans h.start_le h.position_le
  rw [Bool.eq_iff_iff]
  simp only [isDrained, pending, decide_eq_true_eq, List.isEmpty_iff, List.drop_eq_nil_iff,
    Array.length_toList]
  omega

/-! ## What becomes of them -/

theorem Sound.width_peek_le {c : Cursor} (h : c.Sound) :
    c.position + c.peek.width ≤ c.buffer.size := by
  have hw := Rune.width_read_le c.unread
  have hl := h.position_le
  rw [← peek_eq, length_unread] at hw
  omega

theorem Sound.next {c : Cursor} (h : c.Sound) : c.next.2.Sound :=
  ⟨Nat.le_add_right_of_le h.start_le, h.width_peek_le⟩

theorem unread_next (c : Cursor) : c.next.2.unread = c.unread.drop c.peek.width :=
  unread_skip c c.peek.width

theorem length_unread_next_lt {c : Cursor} (h : c.peek ≠ .exhausted) :
    c.next.2.unread.length < c.unread.length := by
  have hw := Rune.width_pos h
  have hl := length_unread_next c
  omega

theorem Sound.tokenBytes_next {c : Cursor} (h : c.Sound) :
    c.next.2.tokenBytes = c.tokenBytes ++ c.unread.take c.peek.width := by
  have hs := h.start_le
  have hn : c.next.2.position - c.next.2.start = (c.position - c.start) + c.peek.width := by
    simp only [Cursor.next, skip]
    omega
  have hu : c.unread = (c.buffer.toList.drop c.start).drop (c.position - c.start) := by
    rw [unread, List.drop_drop, Nat.add_sub_cancel' hs]
  rw [tokenBytes_eq, tokenBytes_eq, hn, hu]
  exact List.take_add

theorem back_next (c : Cursor) : c.next.2.back = { c with lastWidth := 0 } := by
  simp [Cursor.next, back, skip]

theorem Sound.back_next {c : Cursor} (h : c.Sound) : c.next.2.back.Sound := by
  rw [Cursor.back_next]
  exact ⟨h.start_le, h.position_le⟩

theorem tokenBytes_back_next (c : Cursor) : c.next.2.back.tokenBytes = c.tokenBytes := by
  rw [Cursor.back_next]
  rfl

theorem Sound.mark {c : Cursor} (h : c.Sound) : c.mark.Sound := ⟨Nat.le_refl _, h.position_le⟩

theorem tokenBytes_mark (c : Cursor) : c.mark.tokenBytes = [] := by
  simp [tokenBytes_eq, Cursor.mark]

theorem buffer_append (c : Cursor) (input : List UInt8) :
    (c.append input).buffer.toList = c.pending ++ input := by
  have ht : (c.buffer.toList.drop c.start).length ≤ c.buffer.size - c.start := by simp
  simp only [Cursor.append, trim, pending, Array.toList_appendList, Array.toList_extract]
  rw [List.extract_eq_take_drop, List.take_of_length_le ht]

theorem Sound.append {c : Cursor} (h : c.Sound) (input : List UInt8) : (c.append input).Sound := by
  have hs := h.start_le
  have hp := h.position_le
  have hb := congrArg List.length (buffer_append c input)
  simp only [Array.length_toList, pending, List.length_append, List.length_drop] at hb
  refine ⟨Nat.zero_le _, ?_⟩
  rw [hb]
  simp only [Cursor.append, trim]
  omega

theorem Sound.position_sub_le {c : Cursor} (h : c.Sound) :
    c.position - c.start ≤ c.pending.length := by
  have hp := h.position_le
  simp only [pending, List.length_drop, Array.length_toList]
  omega

theorem Sound.unread_append {c : Cursor} (h : c.Sound) (input : List UInt8) :
    (c.append input).unread = c.unread ++ input := by
  have hq : (c.append input).position = c.position - c.start := rfl
  rw [unread, buffer_append, hq, List.drop_append_of_le_length h.position_sub_le, pending,
    List.drop_drop, Nat.add_sub_cancel' h.start_le, unread]

theorem Sound.tokenBytes_append {c : Cursor} (h : c.Sound) (input : List UInt8) :
    (c.append input).tokenBytes = c.tokenBytes := by
  have hq : (c.append input).position = c.position - c.start := rfl
  have hz : (c.append input).start = 0 := rfl
  rw [tokenBytes_eq, buffer_append, hq, hz, Nat.sub_zero, List.drop_zero,
    List.take_append_of_le_length h.position_sub_le, pending, tokenBytes_eq]

/-! ## Two cursors over the same bytes -/

/-- `c` is where `d` is, but has not been given `input`, which `d` has at the end. -/
structure Lacks (input : List UInt8) (c d : Cursor) : Prop where
  left : c.Sound
  right : d.Sound
  tokenBytes : d.tokenBytes = c.tokenBytes
  unread : d.unread = c.unread ++ input

variable {input : List UInt8} {c d : Cursor}

theorem lacks_append (h : c.Sound) (input : List UInt8) : Lacks input c (c.append input) :=
  ⟨h, h.append input, h.tokenBytes_append input, h.unread_append input⟩

theorem Lacks.pending (h : Lacks input c d) : d.pending = c.pending ++ input := by
  rw [h.right.pending_eq, h.left.pending_eq, h.tokenBytes, h.unread, List.append_assoc]

theorem Lacks.peek (h : Lacks input c d) (hc : c.peek ≠ .exhausted) : d.peek = c.peek := by
  rw [peek_eq] at hc
  rw [peek_eq, peek_eq, h.unread, Rune.read_append hc]

theorem Lacks.firstByte? (h : Lacks input c d) (hc : c.peek ≠ .exhausted) :
    d.firstByte? = c.firstByte? := by
  have hne : c.pending ≠ [] := by
    rw [h.left.pending_eq, ne_eq, List.append_eq_nil_iff]
    rintro ⟨-, hu⟩
    rw [peek_eq, hu] at hc
    exact hc rfl
  obtain ⟨b, bs, hb⟩ := List.exists_cons_of_ne_nil hne
  rw [firstByte?_eq, firstByte?_eq, h.pending, hb]
  rfl

theorem Lacks.next (h : Lacks input c d) (hp : d.peek = c.peek) :
    Lacks input c.next.2 d.next.2 := by
  have hw : c.peek.width ≤ c.unread.length := by
    rw [peek_eq]
    exact Rune.width_read_le c.unread
  refine ⟨h.left.next, h.right.next, ?_, ?_⟩
  · rw [h.right.tokenBytes_next, h.left.tokenBytes_next, hp, h.tokenBytes, h.unread,
      List.take_append_of_le_length hw]
  · rw [unread_next, unread_next, hp, h.unread, List.drop_append_of_le_length hw]

theorem Lacks.back_next (h : Lacks input c d) : Lacks input c.next.2.back d.next.2.back := by
  refine ⟨h.left.back_next, h.right.back_next, ?_, ?_⟩
  · rw [tokenBytes_back_next, tokenBytes_back_next, h.tokenBytes]
  · rw [unread_back_next, unread_back_next, h.unread]

theorem Lacks.mark (h : Lacks input c d) : Lacks input c.mark d.mark :=
  ⟨h.left.mark, h.right.mark, by rw [tokenBytes_mark, tokenBytes_mark], h.unread⟩

end ShellTokens.Cursor
