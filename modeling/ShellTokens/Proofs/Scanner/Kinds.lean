import ShellTokens.Proofs.Scanner.Drain

/-!
# The kinds that a scanner hands out

Errors, interrupts and the end of input are no text, so no scanner makes a token of them. An error
comes out of it only for a byte that is no text.
-/

namespace ShellTokens

namespace Kind

/-- A text can be a token of the kind. -/
def isText : Kind → Bool
  | interrupt | endOfInput => false
  | _ => true

/-- A token of the kind comes from well-formed text. -/
def isScanned : Kind → Bool
  | error | interrupt | endOfInput => false
  | _ => true

theorem isText_of_isScanned {kind : Kind} (h : kind.isScanned = true) : kind.isText = true := by
  cases kind <;> first | rfl | cases h

theorem ne_error_of_isScanned {kind : Kind} (h : kind.isScanned = true) : kind ≠ .error := by
  rintro rfl
  cases h

end Kind

theorem Token.isScanned_normal {kind : Kind} (h : kind.isScanned = true) (text : String) :
    (Token.normal kind text).kind.isScanned = true := by
  cases kind
  case symbol =>
    simp only [normal, ofWord]
    repeat' split
    all_goals rfl
  all_goals first | rfl | exact h

namespace State

theorem isScanned_of_first {c : Char} {kind : Kind} (h : first c = .take kind) :
    kind.isScanned = true := by
  unfold first at h
  split at h
  all_goals cases h <;> rfl

theorem first_ne_reject (c : Char) (byte : UInt8) : first c ≠ .reject byte := by
  unfold first
  split <;> simp

theorem isScanned_of_onChar {s : State} {banged : Bool} {c : Char} {kind : Kind}
    (h : s.onChar banged c = .take kind ∨ s.onChar banged c = .leave kind) :
    kind.isScanned = true := by
  cases s
  case blank =>
    rcases h with h | h
    · exact isScanned_of_first h
    · exact absurd h (first_ne_leave c kind)
  all_goals
    simp only [onChar, otherwise] at h
    repeat' split at h
    all_goals rcases h with h | h <;> cases h <;> rfl

theorem isScanned_of_respond {s : State} {banged : Bool} {r : Rune} {kind : Kind}
    (h : s.respond banged r = .take kind ∨ s.respond banged r = .leave kind) :
    kind.isScanned = true := by
  cases r with
  | char c => exact isScanned_of_onChar h
  | invalid b =>
    cases s <;> simp only [respond, onInvalid, otherwise] at h
    all_goals rcases h with h | h <;> cases h <;> rfl
  | exhausted => rcases h with h | h <;> cases h

theorem eq_invalid_of_reject {s : State} {banged : Bool} {r : Rune} {byte : UInt8}
    (h : s.respond banged r = .reject byte) : r = .invalid byte := by
  cases r with
  | char c =>
    cases s <;> simp only [respond, onChar, otherwise] at h
    case blank => exact absurd h (first_ne_reject c byte)
    all_goals
      repeat' split at h
      all_goals cases h
  | invalid b =>
    cases s <;> simp only [respond, onInvalid, otherwise] at h
    all_goals
      cases h
      try rfl
  | exhausted => cases h

end State

namespace Scanner

variable {s t : Scanner} {e : Emission}

theorem isScanned_of_finish {kind : Kind} (hk : kind.isScanned = true)
    (h : s.finish kind = .emit e t) : e.toToken.kind.isScanned = true := by
  unfold finish at h
  split at h
  · cases h
  · cases h
    exact Token.isScanned_normal hk _

theorem isScanned_or_of_step (h : s.step = .emit e t) :
    e.toToken.kind.isScanned = true ∨
      ∃ byte, e = .malformed byte s.marked.state ∧ s.marked.cursor.peek = .invalid byte := by
  unfold step look at h
  split at h
  case h_7 kind hm => exact .inl (isScanned_of_finish (State.isScanned_of_respond (.inl hm)) h)
  case h_8 kind hm => exact .inl (isScanned_of_finish (State.isScanned_of_respond (.inr hm)) h)
  case h_9 byte hm =>
    cases h
    exact .inr ⟨byte, rfl, State.eq_invalid_of_reject hm⟩
  all_goals cases h

theorem isText_of_step (h : s.step = .emit e t) : e.toToken.kind.isText = true := by
  rcases isScanned_or_of_step h with hk | ⟨byte, rfl, -⟩
  · exact Kind.isText_of_isScanned hk
  · rfl

theorem isText_emissions (s : Scanner) : ∀ e ∈ s.emissions, e.toToken.kind.isText = true := by
  induction s using step_induction with
  | halt s t hs =>
    rw [emissions_of_halt hs]
    intro e he
    cases he
  | silent s t hs ih =>
    rw [emissions_of_silent hs]
    exact ih
  | emit s e t hs ih =>
    rw [emissions_of_emit hs]
    intro e' he
    rcases List.mem_cons.1 he with rfl | he
    · exact isText_of_step hs
    · exact ih e' he

end Scanner

end ShellTokens
