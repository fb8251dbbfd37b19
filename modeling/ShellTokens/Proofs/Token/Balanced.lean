import ShellTokens.Token.Basic

/-!
# Which token closes a group

A group goes from the token that opens it to the one that closes it, and in between every group that
is opened is closed. No stack is needed to say so.
-/

namespace ShellTokens

namespace Kind

theorem opensGroup_of_closesGroup {k : Kind} (h : k.closesGroup = true) : k.opensGroup = false := by
  cases k <;> first | rfl | cases h

end Kind

namespace Token

/-- Every group that is opened in the tokens is closed in them, and no other one is. -/
inductive Balanced (opens : Kind → Bool) : List Token → Prop
  | nil : Balanced opens []
  | plain {t : Token} {later : List Token} (ho : opens t.kind = false)
      (hc : t.kind.closesGroup = false) (h : Balanced opens later) : Balanced opens (t :: later)
  | group {first last : Token} {inner later : List Token} (ho : opens first.kind = true)
      (hi : Balanced opens inner) (hc : last.kind.closesGroup = true)
      (h : Balanced opens later) : Balanced opens (first :: (inner ++ last :: later))

/-- What stands behind the end of the group that the tokens are in, when they begin with `deeper`
more groups around them. -/
def behindGroup? : Nat → List Token → Option (List Token)
  | _, [] => none
  | deeper, t :: later =>
    if t.kind.opensGroup then behindGroup? (deeper + 1) later
    else if t.kind.closesGroup then
      if deeper = 0 then some later else behindGroup? (deeper - 1) later
    else behindGroup? deeper later

variable {ts inner later rest : List Token} {t first last : Token} {n : Nat}

theorem behindGroup?_opens (h : t.kind.opensGroup = true) :
    behindGroup? n (t :: later) = behindGroup? (n + 1) later := by
  rw [behindGroup?, if_pos h]

theorem behindGroup?_closes (h : t.kind.closesGroup = true) :
    behindGroup? n (t :: later) = if n = 0 then some later else behindGroup? (n - 1) later := by
  rw [behindGroup?, if_neg (by simp [Kind.opensGroup_of_closesGroup h]), if_pos h]

theorem behindGroup?_plain (ho : t.kind.opensGroup = false) (hc : t.kind.closesGroup = false) :
    behindGroup? n (t :: later) = behindGroup? n later := by
  rw [behindGroup?, if_neg (by simp [ho]), if_neg (by simp [hc])]

theorem Balanced.behindGroup?_append (h : Balanced Kind.opensGroup inner) (n : Nat)
    (later : List Token) : behindGroup? n (inner ++ later) = behindGroup? n later := by
  induction h generalizing n later with
  | nil => rfl
  | plain ho hc _ ih => rw [List.cons_append, behindGroup?_plain ho hc, ih]
  | group ho _ hc _ ihi ih =>
    rw [List.cons_append, behindGroup?_opens ho, List.append_assoc, ihi, List.cons_append,
      behindGroup?_closes hc, if_neg (Nat.succ_ne_zero n), Nat.add_sub_cancel, ih]

theorem exists_of_behindGroup? (h : behindGroup? n ts = some rest) :
    ∃ inner last later, ts = inner ++ last :: later ∧ Balanced Kind.opensGroup inner ∧
      last.kind.closesGroup = true ∧ (n = 0 → later = rest) ∧
      ∀ m, n = m + 1 → behindGroup? m later = some rest := by
  induction hl : ts.length using Nat.strongRecOn generalizing ts n with
  | ind len ih =>
    subst hl
    cases ts with
    | nil => cases h
    | cons t ts =>
      have hts : ts.length < (t :: ts).length := Nat.lt_succ_self _
      by_cases ho : t.kind.opensGroup = true
      · -- The group that begins here ends first, and then the search is back where it was.
        rw [behindGroup?_opens ho] at h
        obtain ⟨inner, last, later, rfl, hi, hc, -, hr⟩ := ih _ hts h rfl
        have hlater : later.length < (t :: (inner ++ last :: later)).length := by
          simp only [List.length_cons, List.length_append]
          omega
        obtain ⟨inner', last', later', rfl, hi', hc', h0, hn⟩ := ih _ hlater (hr n rfl) rfl
        exact ⟨t :: (inner ++ last :: inner'), last', later', by simp, .group ho hi hc hi', hc',
          h0, hn⟩
      · rw [Bool.not_eq_true] at ho
        by_cases hc : t.kind.closesGroup = true
        · refine ⟨[], t, ts, rfl, .nil, hc, ?_, ?_⟩
          · rintro rfl
            rw [behindGroup?_closes hc, if_pos rfl] at h
            exact Option.some.inj h
          · rintro m rfl
            rwa [behindGroup?_closes hc, if_neg (Nat.succ_ne_zero m)] at h
        · rw [Bool.not_eq_true] at hc
          rw [behindGroup?_plain ho hc] at h
          obtain ⟨inner, last, later, rfl, hi, hc', h0, hn⟩ := ih _ hts h rfl
          exact ⟨t :: inner, last, later, rfl, .plain ho hc hi, hc', h0, hn⟩

theorem behindGroup?_eq_some_iff :
    behindGroup? 0 ts = some rest ↔
      ∃ inner last, ts = inner ++ last :: rest ∧ Balanced Kind.opensGroup inner ∧
        last.kind.closesGroup = true := by
  constructor
  · intro h
    obtain ⟨inner, last, later, rfl, hi, hc, h0, -⟩ := exists_of_behindGroup? h
    exact ⟨inner, last, by rw [h0 rfl], hi, hc⟩
  · rintro ⟨inner, last, rfl, hi, hc⟩
    rw [hi.behindGroup?_append, behindGroup?_closes hc, if_pos rfl]

theorem length_lt_of_behindGroup? (h : behindGroup? 0 ts = some rest) :
    rest.length < ts.length := by
  obtain ⟨inner, last, rfl, -, -⟩ := behindGroup?_eq_some_iff.1 h
  simp only [List.length_append, List.length_cons]
  omega

/-- What is left when every group that is closed goes, with all that is in it, and every closing
token that has no group to close. -/
def unclosed : List Token → List Token
  | [] => []
  | t :: later =>
    if t.kind.opensGroup then
      match _h : behindGroup? 0 later with
      | none => t :: unclosed later
      | some rest => unclosed rest
    else if t.kind.closesGroup then unclosed later
    else t :: unclosed later
  termination_by ts => ts.length
  decreasing_by
    all_goals simp only [List.length_cons]
    · omega
    · have := length_lt_of_behindGroup? _h
      omega
    · omega
    · omega

theorem unclosed_opens (h : t.kind.opensGroup = true) :
    unclosed (t :: later) =
      match behindGroup? 0 later with
      | none => t :: unclosed later
      | some rest => unclosed rest := by
  rw [unclosed, if_pos h]
  split <;> simp_all

theorem unclosed_closes (h : t.kind.closesGroup = true) :
    unclosed (t :: later) = unclosed later := by
  rw [unclosed, if_neg (by simp [Kind.opensGroup_of_closesGroup h]), if_pos h]

theorem unclosed_plain (ho : t.kind.opensGroup = false) (hc : t.kind.closesGroup = false) :
    unclosed (t :: later) = t :: unclosed later := by
  rw [unclosed, if_neg (by simp [ho]), if_neg (by simp [hc])]

end Token

end ShellTokens
