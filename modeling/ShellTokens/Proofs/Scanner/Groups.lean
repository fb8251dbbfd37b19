import ShellTokens.Proofs.Scanner.Drain
import ShellTokens.Session.Basic

/-!
# Open groups

A scanner counts the parentheses and braces that are open. The parenthesis of a substitution counts
where it closes but not where it opens, so behind a substitution the count may be too low.
-/

namespace ShellTokens

/-- A group begins with the token. The spelling of a substitution ends in a parenthesis. -/
def Kind.opensAnyGroup (k : Kind) : Bool := k.opensGroup || k = .substitute

namespace Token

def nest (opens : Kind → Bool) (groups : List Token) (t : Token) : List Token :=
  if opens t.kind then t :: groups else if t.kind.closesGroup then groups.tail else groups

/-- The tokens that have opened a group which is still open in the end. -/
def openGroups (opens : Kind → Bool) (ts : List Token) : List Token := ts.foldl (nest opens) []

theorem length_nest_le {groups fewer : List Token} {missed : Nat}
    (h : groups.length ≤ fewer.length + missed) (t : Token) :
    (nest Kind.opensAnyGroup groups t).length ≤
      (nest Kind.opensGroup fewer t).length +
        (missed + if t.kind = .substitute then 1 else 0) := by
  unfold nest Kind.opensAnyGroup
  by_cases hs : t.kind = .substitute
  · -- Only here the one list grows and the other does not.
    rw [hs]
    simp only [Kind.opensGroup, Kind.closesGroup, Bool.false_or, decide_true, if_true,
      Bool.false_eq_true, if_false, List.length_cons]
    omega
  · simp only [hs, decide_false, Bool.or_false, if_false, Nat.add_zero]
    split
    · simp only [List.length_cons]
      omega
    · split
      · simp only [List.length_tail]
        omega
      · exact h

theorem length_foldl_nest_le (ts : List Token) {groups fewer : List Token} {missed : Nat}
    (h : groups.length ≤ fewer.length + missed) :
    (ts.foldl (nest Kind.opensAnyGroup) groups).length ≤
      (ts.foldl (nest Kind.opensGroup) fewer).length +
        (missed + ts.countP (·.kind = .substitute)) := by
  induction ts generalizing groups fewer missed with
  | nil => exact h
  | cons t ts ih =>
    have hl := ih (length_nest_le h t)
    rw [List.countP_cons]
    simp only [List.foldl_cons, decide_eq_true_eq] at hl ⊢
    omega

theorem length_openGroups_le (ts : List Token) :
    (openGroups Kind.opensAnyGroup ts).length ≤
      (openGroups Kind.opensGroup ts).length + ts.countP (·.kind = .substitute) := by
  have h : ([] : List Token).length ≤ ([] : List Token).length + 0 := Nat.le_refl 0
  have hle := length_foldl_nest_le ts h
  rwa [Nat.zero_add] at hle

end Token

namespace Scanner

/-! ## The count -/

def Step.Counts (groups : List Token) : Step → Prop
  | .halt s => s.depth = groups.length
  | .silent s => s.depth = groups.length
  | .emit e s => s.depth = (Token.nest Kind.opensGroup groups e.toToken).length

theorem depth_resumed (s : Scanner) : s.resumed.depth = s.depth := by
  unfold resumed
  split <;> rfl

variable {s : Scanner} {groups : List Token}

theorem counts_finish (h : s.depth = groups.length) (kind : Kind) :
    (s.finish kind).Counts groups := by
  unfold finish
  split
  · exact h
  · unfold Step.Counts record Token.nest Emission.toToken
    simp only [h]
    repeat' split
    · rfl
    · exact List.length_tail.symm
    · rfl

theorem counts_step (h : s.depth = groups.length) : s.step.Counts groups := by
  rw [← depth_marked] at h
  rw [step]
  generalize s.marked = s at h
  unfold look
  simp only
  split
  case h_6 => exact (depth_resumed _).trans h
  case h_7 kind _ => exact counts_finish (s := { s with cursor := s.cursor.next.2 }) h kind
  case h_8 kind _ => exact counts_finish (s := { s with cursor := s.cursor.next.2.back }) h kind
  case h_9 => exact (depth_resumed _).trans h
  all_goals exact h

theorem depth_behind (h : s.depth = groups.length) :
    s.behind.depth =
      ((s.emissions.map Emission.toToken).foldl (Token.nest Kind.opensGroup) groups).length := by
  induction s using step_induction generalizing groups with
  | halt s t hs =>
    have hc := counts_step h
    rw [hs] at hc
    rw [behind_of_halt hs, emissions_of_halt hs]
    exact hc
  | silent s t hs ih =>
    have hc := counts_step h
    rw [hs] at hc
    rw [behind_of_silent hs, emissions_of_silent hs]
    exact ih hc
  | emit s e t hs ih =>
    have hc := counts_step h
    rw [hs] at hc
    rw [behind_of_emit hs, emissions_of_emit hs]
    exact ih hc

end Scanner

namespace Probe

/-- What a complete line leaves open is at most one group for each of its substitutions. To the
scanner it leaves nothing open, because that takes the end of a substitution for the end of a group
that it has counted. -/
theorem openGroups_of_isComplete (o : Options) (supplier : Option Supplier) (line : String)
    (h : ((Session.start o supplier).probe line).isComplete = true) :
    let ts := ((Session.start o supplier).probe line).drain.1.map Emission.toToken
    Token.openGroups Kind.opensGroup ts = [] ∧
      (Token.openGroups Kind.opensAnyGroup ts).length ≤ ts.countP (·.kind = .substitute) := by
  intro ts
  let s := ((Session.start o supplier).probe line).scanner
  have hts : ts = s.emissions.map Emission.toToken := rfl
  have hd : s.behind.depth = (Token.openGroups Kind.opensGroup ts).length := by
    have h : s.depth = ([] : List Token).length := rfl
    rw [hts]
    exact Scanner.depth_behind h
  have hz : s.behind.depth = 0 := by
    have hs : s.behind.isSettled = true := h
    unfold Scanner.isSettled at hs
    simp only [Bool.and_eq_true, decide_eq_true_eq] at hs
    exact hs.1.2
  have hl := hd.symm.trans hz
  have hle := Token.length_openGroups_le ts
  rw [hl, Nat.zero_add] at hle
  exact ⟨List.length_eq_zero_iff.1 hl, hle⟩

theorem openGroups_of_cut_substitution :
    let p := (Session.start {} none).probe "cat <(ls\n"
    let ts := p.drain.1.map Emission.toToken
    p.isComplete = true ∧ Token.openGroups Kind.opensGroup ts = [] ∧
      (Token.openGroups Kind.opensAnyGroup ts).length ≤ ts.countP (·.kind = .substitute) := by
  intro p ts
  have h : p.isComplete = true := by decide +kernel
  exact ⟨h, openGroups_of_isComplete {} none "cat <(ls\n" h⟩

theorem isComplete_with_open_group :
    let p := (Session.start {} none).probe "(<(a)\n"
    p.isComplete = true ∧
      Token.openGroups Kind.opensAnyGroup (p.drain.1.map Emission.toToken) =
        [⟨.openParen, "("⟩] := by
  -- The one `)` counts for the parenthesis in front, and that is still open.
  decide +kernel

end Probe

end ShellTokens
