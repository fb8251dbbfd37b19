import ShellTokens.Text.Rune

/-!
# Text out of bytes that may not be text

A token's bytes become its text here. Whole characters stay, and each maximal subpart of an
ill-formed sequence becomes one replacement character: the longest run of bytes with which some
well-formed sequence begins, or a single byte where none does.
-/

namespace ShellTokens.Text

open Rune (isContinuation leading?)

/-- What stands in for bytes that are no text. -/
def replacement : Char := '\uFFFD'

/-- The second byte may follow the lead of a sequence of three or four. The narrower ranges keep
out overlong forms, surrogates and values above the last character. -/
def mayFollow (lead second : UInt8) : Bool :=
  if lead = 0xE0 then 0xA0 ≤ second && second ≤ 0xBF
  else if lead = 0xED then 0x80 ≤ second && second ≤ 0x9F
  else if lead = 0xF0 then 0x90 ≤ second && second ≤ 0xBF
  else if lead = 0xF4 then 0x80 ≤ second && second ≤ 0x8F
  else isContinuation second

/-- How many bytes one replacement character stands for, where no character begins. -/
def subpartLength : List UInt8 → Nat
  | lead :: second :: later =>
    if 0xE0 ≤ lead && lead ≤ 0xF4 && mayFollow lead second then
      if 0xF0 ≤ lead && later.head?.any isContinuation then 3 else 2
    else 1
  | _ => 1

/-- The characters of the bytes, with replacements. -/
def lossyChars : List UInt8 → List Char
  | [] => []
  | lead :: rest =>
    match leading? (lead :: rest) with
    | some c => c :: lossyChars (rest.drop (c.utf8Size - 1))
    | none => replacement :: lossyChars (rest.drop (subpartLength (lead :: rest) - 1))
  termination_by bytes => bytes.length
  decreasing_by all_goals simp only [List.length_drop, List.length_cons]; omega

def lossy (bytes : List UInt8) : String := String.ofList (lossyChars bytes)

end ShellTokens.Text
