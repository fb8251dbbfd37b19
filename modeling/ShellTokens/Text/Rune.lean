/-!
# One character at a time out of bytes

Input arrives as bytes and may end in the middle of a character. `Rune.read` says what the bytes
begin with: a whole character, a byte that starts none, or nothing that can be told yet.
-/

namespace ShellTokens

/-- What the bytes at a reading position begin with. -/
inductive Rune where
  | char (c : Char)
  /-- A byte with which no character begins here. -/
  | invalid (byte : UInt8)
  /-- No byte is left, or only the first bytes of a sequence. More input may still arrive. -/
  | exhausted
  deriving DecidableEq, Repr

namespace Rune

def width : Rune → Nat
  | .char c => c.utf8Size
  | .invalid _ => 1
  | .exhausted => 0

/-- A byte that only ever stands inside a sequence. -/
def isContinuation (byte : UInt8) : Bool := byte &&& 0xC0 == 0x80

/-- The length of the sequence that a lead byte announces. -/
def announced (lead : UInt8) : Option Nat :=
  if lead ≤ 0x7F then some 1
  else if lead < 0xC0 then none
  else if lead ≤ 0xDF then some 2
  else if lead ≤ 0xEF then some 3
  else if lead ≤ 0xF7 then some 4
  else none

/-- The character whose UTF-8 encoding the bytes begin with. No encoding is longer than four. -/
def leading? (bytes : List UInt8) : Option Char :=
  (bytes.take 4).toByteArray.utf8DecodeChar? 0

/-- The bytes stop short of the length that the first one announces, with nothing but
continuation bytes in between. -/
def isCutShort : List UInt8 → Bool
  | [] => false
  | lead :: rest =>
    match announced lead with
    | some n => decide (rest.length + 1 < n) && rest.all isContinuation
    | none => false

def read : List UInt8 → Rune
  | [] => .exhausted
  | lead :: rest =>
    match leading? (lead :: rest) with
    | some c => .char c
    | none => if isCutShort (lead :: rest) then .exhausted else .invalid lead

theorem announced_le_four {lead : UInt8} {n : Nat} (h : announced lead = some n) : n ≤ 4 := by
  unfold announced at h
  repeat' split at h
  all_goals simp at h
  all_goals omega

/-- A character is read exactly where its encoding stands. -/
theorem leading?_eq_some_iff {bytes : List UInt8} {c : Char} :
    leading? bytes = some c ↔ String.utf8EncodeChar c <+: bytes := by
  constructor
  · intro h
    obtain ⟨rest, h⟩ := ByteArray.exists_of_utf8DecodeChar?_eq_some h
    have h := congrArg (·.data.toList) h
    simp only [List.data_toByteArray, ByteArray.data_append, Array.toList_append] at h
    exact List.IsPrefix.trans ⟨_, h.symm⟩ (List.take_prefix 4 bytes)
  · rintro ⟨rest, rfl⟩
    have hl := c.utf8Size_le_four
    have ht : (String.utf8EncodeChar c ++ rest).take 4 =
        String.utf8EncodeChar c ++ rest.take (4 - c.utf8Size) := by
      rw [List.take_append, List.take_of_length_le (by simpa using hl),
        String.length_utf8EncodeChar]
    rw [leading?, ht, List.toByteArray_append]
    exact ByteArray.utf8DecodeChar?_utf8EncodeChar_append

theorem utf8Size_le_of_leading? {bytes : List UInt8} {c : Char} (h : leading? bytes = some c) :
    c.utf8Size ≤ bytes.length := by
  simpa using (leading?_eq_some_iff.1 h).length_le

theorem width_read_le (bytes : List UInt8) : (read bytes).width ≤ bytes.length := by
  cases bytes with
  | nil => simp [read, width]
  | cons lead rest =>
    cases h : leading? (lead :: rest) with
    | some c => simpa only [read, h, width] using utf8Size_le_of_leading? h
    | none => cases hc : isCutShort (lead :: rest) <;> simp [read, h, hc, width]

/-- Only an unfinished reading takes up nothing. -/
theorem width_pos {r : Rune} (h : r ≠ .exhausted) : 0 < r.width := by
  cases r with
  | char c => exact c.utf8Size_pos
  | invalid b => exact Nat.one_pos
  | exhausted => exact absurd rfl h

theorem isCutShort_take_four (bytes : List UInt8) :
    isCutShort (bytes.take 4) = isCutShort bytes := by
  cases bytes with
  | nil => rfl
  | cons lead rest =>
    simp only [List.take_succ_cons, isCutShort]
    cases h : announced lead with
    | none => rfl
    | some n =>
      have hn := announced_le_four h
      by_cases hr : rest.length < 3
      · rw [List.take_of_length_le (by omega)]
      · have h₁ : ¬ rest.length + 1 < n := by omega
        have h₂ : ¬ (rest.take 3).length + 1 < n := by simp; omega
        simp [h₁]
        intro h₃
        simp at h₂
        omega

/-- Four bytes are enough to tell. -/
theorem read_take_four (bytes : List UInt8) : read (bytes.take 4) = read bytes := by
  have hl : leading? (bytes.take 4) = leading? bytes := by simp [leading?, List.take_take]
  have hc := isCutShort_take_four bytes
  cases bytes with
  | nil => rfl
  | cons lead rest =>
    simp only [List.take_succ_cons] at hl hc ⊢
    simp only [read, hl, hc]

end Rune

end ShellTokens
