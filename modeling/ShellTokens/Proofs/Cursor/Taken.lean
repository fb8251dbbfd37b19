import ShellTokens.Proofs.Cursor
import ShellTokens.Proofs.Text.Row

/-!
# The text that is taken

From its mark on, a token is read one rune at a time, and its text is made of the bytes in one go.
Both find the same characters. Where bytes are no text, reading counts them one by one, and the text
may have one replacement for several.
-/

namespace ShellTokens

open Text (replacement lossyChars)

namespace Rune

def char? : Rune → Option Char
  | .char c => some c
  | _ => none

/-- The characters are those of the runes, in their order. A run of bytes that are no text, taken as
long as it is, has become at least one replacement and at most one for each byte. -/
inductive Yields : List Rune → List Char → Prop
  | nil : Yields [] []
  | char (c : Char) {rs : List Rune} {cs : List Char} (h : Yields rs cs) :
      Yields (.char c :: rs) (c :: cs)
  | run (bytes : List UInt8) (n : Nat) {rs : List Rune} {cs : List Char} (hpos : 1 ≤ n)
      (hle : n ≤ bytes.length) (hmax : ∀ byte, rs.head? ≠ some (.invalid byte))
      (h : Yields rs cs) :
      Yields (bytes.map .invalid ++ rs) (List.replicate n replacement ++ cs)

variable {rs : List Rune} {cs : List Char}

namespace Yields

theorem invalid (h : Yields rs cs) (byte : UInt8) (later : List UInt8) :
    Yields (.invalid byte :: (later.map .invalid ++ rs)) (replacement :: cs) := by
  have halone (hmax : ∀ b, rs.head? ≠ some (.invalid b)) :
      Yields (.invalid byte :: (later.map .invalid ++ rs)) (replacement :: cs) :=
    .run (byte :: later) 1 (Nat.le_refl 1) (by simp) hmax h
  cases h with
  | nil => exact halone (by simp)
  | char c h => exact halone (by simp)
  | @run bytes n rs cs hpos hle hmax h =>
    have hlen : n + 1 ≤ (byte :: later ++ bytes).length := by
      simp only [List.length_append, List.length_cons]
      omega
    have hjoined := Yields.run (byte :: later ++ bytes) (n + 1) (by omega) hlen hmax h
    simpa [List.replicate_succ] using hjoined

theorem of_shown (h : Shown rs cs) : Yields rs cs := by
  induction h with
  | nil => exact .nil
  | char c _ ih => exact .char c ih
  | invalid byte later _ ih => exact ih.invalid byte later

theorem eq_chars (h : Yields rs cs) (hv : ∀ byte, .invalid byte ∉ rs) :
    cs = rs.filterMap char? := by
  induction h with
  | nil => rfl
  | char c _ ih =>
    rw [List.filterMap_cons]
    simp only [char?]
    rw [← ih fun byte hb => hv byte (List.mem_cons_of_mem _ hb)]
  | run bytes n hpos hle _ _ _ =>
    obtain ⟨byte, later, rfl⟩ := List.exists_cons_of_length_pos (Nat.lt_of_lt_of_le hpos hle)
    exact absurd List.mem_cons_self (hv byte)

theorem filter_eq (h : Yields rs cs) :
    cs.filter (· ≠ replacement) = (rs.filterMap char?).filter (· ≠ replacement) := by
  induction h with
  | nil => rfl
  | char c _ ih =>
    have hc : (Rune.char c).char? = some c := rfl
    rw [List.filterMap_cons, hc, List.filter_cons, List.filter_cons, ih]
  | @run bytes n rs cs _ _ _ _ ih =>
    have hr : (bytes.map Rune.invalid).filterMap char? = [] := by
      rw [List.filterMap_eq_nil_iff]
      intro r hr
      obtain ⟨byte, -, rfl⟩ := List.mem_map.1 hr
      rfl
    have hn : (List.replicate n replacement).filter (· ≠ replacement) = [] := by simp
    rw [List.filterMap_append, hr, List.nil_append, List.filter_append, hn, List.nil_append, ih]

end Yields

end Rune

namespace Cursor

variable {c : Cursor} {rs : List Rune}

/-! ## A stretch -/

inductive Progress where
  | next
  | append (input : List UInt8)
  deriving DecidableEq, Repr

/-- What is read in a stretch, and the cursor behind it. -/
def stretch : List Progress → Cursor → List Rune × Cursor
  | [], c => ([], c)
  | .next :: later, c =>
    let rest := stretch later c.next.2
    (c.next.1 :: rest.1, rest.2)
  | .append input :: later, c => stretch later (c.append input)

theorem pending_next (c : Cursor) : c.next.2.pending = c.pending := rfl

/-- The runes have been read since the mark. -/
structure HasRead (rs : List Rune) (c : Cursor) : Prop where
  sound : c.Sound
  row : Rune.Row c.pending rs c.unread

namespace HasRead

theorem mark (h : c.Sound) : HasRead [] c.mark := ⟨h.mark, .nil c.unread⟩

theorem append (h : HasRead rs c) (input : List UInt8) : HasRead rs (c.append input) := by
  refine ⟨h.sound.append input, ?_⟩
  rw [(lacks_append h.sound input).pending, h.sound.unread_append]
  exact h.row.append input

theorem read (h : HasRead rs c) (hp : c.peek ≠ .exhausted) :
    HasRead (rs ++ [c.peek]) c.next.2 := by
  refine ⟨h.sound.next, ?_⟩
  rw [pending_next, unread_next]
  rw [peek_eq] at hp ⊢
  exact h.row.snoc hp

theorem next (h : HasRead rs c) :
    HasRead (rs ++ [c.peek].filter (· ≠ .exhausted)) c.next.2 := by
  by_cases hp : c.peek = .exhausted
  · have hw : c.peek.width = 0 := by
      rw [hp]
      rfl
    refine ⟨h.sound.next, ?_⟩
    rw [pending_next, unread_next, hw, hp]
    simpa using h.row
  · rw [List.filter_cons_of_pos (by simpa using hp)]
    exact h.read hp

theorem back_next (h : HasRead rs c) : HasRead rs c.next.2.back := by
  refine ⟨h.sound.back_next, ?_⟩
  rw [Cursor.back_next]
  exact h.row

theorem stretch (h : HasRead rs c) (steps : List Progress) :
    HasRead (rs ++ (c.stretch steps).1.filter (· ≠ .exhausted)) (c.stretch steps).2 := by
  induction steps generalizing c rs with
  | nil => simpa [Cursor.stretch] using h
  | cons step later ih =>
    cases step with
    | append input => exact ih (h.append input)
    | next =>
      have hn := ih h.next
      rw [List.append_assoc, ← List.filter_append] at hn
      exact hn

theorem tokenBytes_eq (h : HasRead rs c) : c.tokenBytes = rs.flatMap Rune.bytes := by
  have hb := h.row.bytes_eq
  rw [h.sound.pending_eq] at hb
  exact List.append_cancel_right hb

theorem shown (h : HasRead rs c) : Rune.Shown rs c.text.toList := by
  rw [text, Text.lossy, String.toList_ofList, h.tokenBytes_eq]
  exact h.row.shown

end HasRead

/-- Behind a mark, the text is what has been read since, also if more input has come in between. A
run of bytes that are no text has become at least one replacement and at most one for each of them.
Without such bytes the text is exactly the characters that were read, and with them it still has all
of these, each in its place and no more often. -/
theorem text_of_stretch (h : c.Sound) (steps : List Progress) :
    let r := c.mark.stretch steps
    Rune.Yields (r.1.filter (· ≠ .exhausted)) r.2.text.toList ∧
      ((∀ byte, .invalid byte ∉ r.1) → r.2.text = String.ofList (r.1.filterMap Rune.char?)) ∧
      r.2.text.toList.filter (· ≠ replacement) =
        (r.1.filterMap Rune.char?).filter (· ≠ replacement) := by
  intro r
  have hy : Rune.Yields (r.1.filter (· ≠ .exhausted)) r.2.text.toList :=
    .of_shown ((HasRead.mark h).stretch steps).shown
  -- The end of what is there is no character.
  have hchars : (r.1.filter (· ≠ .exhausted)).filterMap Rune.char? = r.1.filterMap Rune.char? := by
    rw [List.filterMap_filter]
    congr 1
    funext rune
    cases rune <;> rfl
  refine ⟨hy, fun hv => ?_, ?_⟩
  · have he := hy.eq_chars fun byte hb => hv byte (List.mem_filter.1 hb).1
    rw [hchars] at he
    rw [← he, String.ofList_toList]
  · rw [hy.filter_eq, hchars]

theorem text_with_stray_bytes :
    let c := (({} : Cursor).append (Text.bytes "ls " ++ [0xC3])).next.2.next.2.next.2
    let steps : List Progress := [.next, .append ([0xA9, 0xF0, 0x9F, 0x98] ++ Text.bytes "x"),
      .next, .next, .next, .next, .next, .append [0xFF, 0xFE, 0x20], .next, .next]
    let r := c.mark.stretch steps
    c.Sound ∧
      r.1.filter (· ≠ .exhausted) = [.char 'é', .invalid 0xF0, .invalid 0x9F, .invalid 0x98,
        .char 'x', .invalid 0xFF, .invalid 0xFE] ∧
      r.2.text = "é\uFFFDx\uFFFD\uFFFD" ∧
      Rune.Yields (r.1.filter (· ≠ .exhausted)) r.2.text.toList ∧
      r.2.text.toList.filter (· ≠ replacement) =
        (r.1.filterMap Rune.char?).filter (· ≠ replacement) := by
  -- In front of the token there is another one. In it, a character comes in two parts, three bytes
  -- of a longer one are cut off by a letter, and two bytes are the first ones of nothing.
  intro c steps r
  have hs : c.Sound := by
    have hstart : ({} : Cursor).Sound := ⟨Nat.le_refl 0, Nat.le_refl 0⟩
    exact (hstart.append _).next.next.next
  obtain ⟨hy, -, hf⟩ := text_of_stretch hs steps
  exact ⟨hs, by decide +kernel, by decide +kernel, hy, hf⟩

end Cursor

end ShellTokens
