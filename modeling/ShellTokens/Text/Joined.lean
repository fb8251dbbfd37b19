import ShellTokens.Text.Bytes

/-!
# Lines that a backslash continues

A backslash at the end of a line joins it to the next one, and neither the backslash nor the line
end is part of the text then.
-/

namespace ShellTokens.Text

/-- Removes each backslash with the newline behind it. What moves together over a gap makes no new
pair. -/
def joinLines : List Char → List Char
  | '\\' :: '\n' :: rest => joinLines rest
  | c :: rest => c :: joinLines rest
  | [] => []

def joined (text : String) : String := String.ofList (joinLines text.toList)

/-- Where no line is continued there is nothing to join. -/
theorem joinLines_of_unbroken {cs : List Char} (h : ¬ ['\\', '\n'] <:+: cs) :
    joinLines cs = cs := by
  fun_induction joinLines cs with
  | case1 rest ih => exact absurd ⟨[], rest, rfl⟩ h
  | case2 c rest _ ih => rw [ih fun hr => h (hr.trans (List.suffix_cons c rest).isInfix)]
  | case3 => rfl

theorem joined_of_unbroken {text : String} (h : ¬ ['\\', '\n'] <:+: text.toList) :
    joined text = text := by
  rw [joined, joinLines_of_unbroken h, String.ofList_toList]

theorem length_encoded_joinLines_le (cs : List Char) :
    ((joinLines cs).flatMap String.utf8EncodeChar).length ≤
      (cs.flatMap String.utf8EncodeChar).length := by
  fun_induction joinLines cs with
  | case1 rest ih =>
    simp only [List.flatMap_cons, List.length_append]
    omega
  | case2 c rest _ ih =>
    simp only [List.flatMap_cons, List.length_append]
    omega
  | case3 => exact Nat.le_refl _

theorem length_bytes_joined_le (text : String) :
    (bytes (joined text)).length ≤ (bytes text).length := by
  simpa [bytes, joined] using length_encoded_joinLines_le text.toList

end ShellTokens.Text
