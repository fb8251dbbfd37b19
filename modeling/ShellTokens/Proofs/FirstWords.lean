import Mathlib.Data.List.DropRight
import ShellTokens.FirstWords.Basic
import ShellTokens.Proofs.Token.Balanced

/-!
# The first word without a stack

Groups that are closed again leave no trace in the words. Of the others only the last one counts, so
the first word can be read off the tokens themselves.
-/

namespace ShellTokens

namespace FirstWords

variable {t : Token} {ts : List Token} {opens : Kind → Bool}

/-! ## One token -/

theorem observe_opens (h : t.kind.opensGroup = true) (word : String) (outer : List String) :
    (tracked word outer).observe t = .tracked "" (word :: outer) := by
  obtain ⟨kind, text⟩ := t
  cases kind <;> first | rfl | cases h

theorem observe_closes (h : t.kind.closesGroup = true) (word : String) (outer : List String) :
    (tracked word outer).observe t = .tracked (outer.headD word) outer.tail := by
  obtain ⟨kind, text⟩ := t
  cases kind <;> first | cases outer <;> rfl | cases h

def heard (word : String) (t : Token) : String :=
  match t.kind with
  | .symbol => if word = "" then t.text else word
  | .openParen | .openBrace | .colon => ""
  | _ => word

theorem heard_opens (h : t.kind.opensGroup = true) (word : String) : heard word t = "" := by
  obtain ⟨kind, text⟩ := t
  cases kind <;> first | rfl | cases h

theorem heard_colon (h : t.kind = .colon) (word : String) : heard word t = "" := by
  rw [heard, h]

theorem heard_eq_ite (ho : t.kind.opensGroup = false) (hc : t.kind ≠ .colon) (word : String) :
    heard word t = if t.kind = .symbol ∧ word = "" then t.text else word := by
  obtain ⟨kind, text⟩ := t
  cases kind
  case symbol => simp [heard]
  case openParen => cases ho
  case openBrace => cases ho
  case colon => exact absurd rfl hc
  all_goals rfl

theorem observe_plain (ho : t.kind.opensGroup = false) (hc : t.kind.closesGroup = false)
    (word : String) (outer : List String) :
    (tracked word outer).observe t = .tracked (heard word t) outer := by
  obtain ⟨kind, text⟩ := t
  cases kind
  case symbol =>
    simp only [observe, heard]
    split <;> rfl
  case openParen => cases ho
  case openBrace => cases ho
  case closeParen => cases hc
  case closeBrace => cases hc
  all_goals rfl

/-! ## Groups that are closed again -/

/-- Balanced tokens close the groups that they open. Where the words take no note of the opening of
a group, its end takes a group around them. -/
theorem foldl_observe_balanced (h : Token.Balanced opens ts)
    (hmore : ∀ k : Kind, k.opensGroup = true → opens k = true)
    (hends : ∀ k : Kind, k.closesGroup = true → opens k = false)
    (word : String) (outer : List String) :
    ∃ word', ts.foldl (fun w t => w.observe t) (tracked word outer) =
      .tracked word' (outer.drop (ts.countP fun t => opens t.kind && !t.kind.opensGroup)) := by
  induction h generalizing word outer with
  | nil => exact ⟨word, rfl⟩
  | @plain t later ho hc _ ih =>
    have hn : t.kind.opensGroup = false := by
      rw [← Bool.not_eq_true] at ho ⊢
      exact fun h => ho (hmore _ h)
    obtain ⟨word', h⟩ := ih (heard word t) outer
    exact ⟨word', by simpa [observe_plain hn hc, ho] using h⟩
  | @group first last inner later ho _ hc _ ihi ih =>
    have hf : first.kind.closesGroup = false := by
      rw [← Bool.not_eq_true]
      exact fun h => by simp [hends _ h] at ho
    rw [List.foldl_cons, List.foldl_append, List.foldl_cons, List.countP_cons, List.countP_append,
      List.countP_cons, hends _ hc, ho]
    by_cases hn : first.kind.opensGroup = true
    · -- The group has a word of its own on top, and its end takes that.
      obtain ⟨w, h⟩ := ihi "" (word :: outer)
      rw [observe_opens hn, h, observe_closes hc, hn, List.tail_drop, List.drop_succ_cons]
      obtain ⟨w', h'⟩ := ih _ _
      exact ⟨w', by rw [h', List.drop_drop]; simp⟩
    · rw [Bool.not_eq_true] at hn
      obtain ⟨w, h⟩ := ihi (heard word first) outer
      rw [observe_plain hn hf, h, observe_closes hc, hn, List.tail_drop]
      obtain ⟨w', h'⟩ := ih _ _
      exact ⟨w', by rw [h', List.drop_drop]; simp [Nat.add_right_comm]⟩

theorem foldl_observe_group {first last : Token} (ho : first.kind.opensGroup = true)
    (h : Token.Balanced Kind.opensGroup ts) (hc : last.kind.closesGroup = true) (word : String)
    (outer : List String) :
    (first :: (ts ++ [last])).foldl (fun w t => w.observe t) (tracked word outer) =
      .tracked word outer := by
  obtain ⟨w, hw⟩ := foldl_observe_balanced h (fun _ => id) (fun _ => Kind.opensGroup_of_closesGroup)
    "" (word :: outer)
  rw [List.foldl_cons, observe_opens ho, List.foldl_append, hw]
  simp [observe_closes hc]

/-! ## Groups that stay open -/

theorem word?_foldl_observe (word : String) (outer : List String)
    (h : outer = [] ∨ Token.behindGroup? 0 ts = none) :
    (ts.foldl (fun w t => w.observe t) (tracked word outer)).word? =
      some ((Token.unclosed ts).foldl heard word) := by
  induction hl : ts.length using Nat.strongRecOn generalizing ts word outer with
  | ind len ih =>
    subst hl
    cases ts with
    | nil =>
      rw [Token.unclosed]
      rfl
    | cons t ts =>
      have hts : ts.length < (t :: ts).length := Nat.lt_succ_self _
      by_cases ho : t.kind.opensGroup = true
      · rw [Token.unclosed_opens ho]
        rcases hb : Token.behindGroup? 0 ts with _ | rest
        · rw [List.foldl_cons, observe_opens ho, List.foldl_cons, heard_opens ho]
          exact ih _ hts "" (word :: outer) (.inr hb) rfl
        · obtain ⟨inner, last, rfl, hi, hc⟩ := Token.behindGroup?_eq_some_iff.1 hb
          have hw := foldl_observe_group ho hi hc word outer
          have hr : rest.length < (t :: (inner ++ last :: rest)).length := by
            simp only [List.length_cons, List.length_append]
            omega
          rw [show t :: (inner ++ last :: rest) = t :: (inner ++ [last]) ++ rest by simp,
            List.foldl_append, hw]
          refine ih _ hr word outer (h.imp_right fun h => ?_) rfl
          rwa [Token.behindGroup?_opens ho, hi.behindGroup?_append,
            Token.behindGroup?_closes hc] at h
      · rw [Bool.not_eq_true] at ho
        by_cases hc : t.kind.closesGroup = true
        · obtain rfl : outer = [] := h.resolve_right (by simp [Token.behindGroup?_closes hc])
          rw [List.foldl_cons, observe_closes hc, Token.unclosed_closes hc]
          exact ih _ hts word [] (.inl rfl) rfl
        · rw [Bool.not_eq_true] at hc
          rw [Token.behindGroup?_plain ho hc] at h
          rw [List.foldl_cons, observe_plain ho hc, Token.unclosed_plain ho hc, List.foldl_cons]
          exact ih _ hts _ outer h rfl

end FirstWords

/-! ## Read off the tokens -/

namespace Token

/-- What comes behind the last token of such a kind, or all if there is none. -/
def behindLast (p : Kind → Bool) (ts : List Token) : List Token :=
  ts.rtakeWhile fun t => !p t.kind

def firstPlain (ts : List Token) : String :=
  (ts.find? fun t => t.kind = .symbol && t.text ≠ "").elim "" text

/-- The word that stands where a command's name is expected. -/
def firstWord (ts : List Token) : String :=
  firstPlain (behindLast (· = .colon) (behindLast Kind.opensGroup (unclosed ts)))

variable {t : Token} {p : Kind → Bool}

theorem behindLast_concat_of_pos (h : p t.kind = true) (ts : List Token) :
    behindLast p (ts ++ [t]) = [] := by
  simp [behindLast, h]

theorem behindLast_concat_of_neg (h : p t.kind = false) (ts : List Token) :
    behindLast p (ts ++ [t]) = behindLast p ts ++ [t] := by
  simp [behindLast, h]

theorem firstPlain_concat (ts : List Token) (t : Token) :
    firstPlain (ts ++ [t]) =
      if t.kind = .symbol ∧ firstPlain ts = "" then t.text else firstPlain ts := by
  unfold firstPlain
  rw [List.find?_append]
  generalize hf : ts.find? _ = found
  rcases found with _ | u
  · by_cases hk : t.kind = .symbol <;> by_cases ht : t.text = "" <;> simp [hk, ht]
  · have hu := List.find?_some hf
    simp only [Bool.and_eq_true, decide_eq_true_eq] at hu
    simp [hu.2]

theorem foldl_heard (ts : List Token) :
    ts.foldl FirstWords.heard "" =
      firstPlain (behindLast (· = .colon) (behindLast Kind.opensGroup ts)) := by
  induction ts using List.reverseRecOn with
  | nil => rfl
  | append_singleton ts t ih =>
    rw [List.foldl_append, ih, List.foldl_cons, List.foldl_nil]
    by_cases ho : t.kind.opensGroup = true
    · rw [behindLast_concat_of_pos ho, FirstWords.heard_opens ho]
      rfl
    · rw [Bool.not_eq_true] at ho
      rw [behindLast_concat_of_neg ho]
      by_cases hc : t.kind = .colon
      · rw [behindLast_concat_of_pos (by simpa using hc), FirstWords.heard_colon hc]
        rfl
      · rw [behindLast_concat_of_neg (by simpa using hc), firstPlain_concat,
          FirstWords.heard_eq_ite ho hc]

end Token

namespace FirstWords

/-- Since they were last tracked anew, the words come down to one that can be read off the tokens
they have taken note of. -/
theorem word?_activated (w : FirstWords) (ts : List Token) :
    ((ts.map Change.observe).foldl change (w.change .activate)).word? =
      some (Token.firstWord ts) := by
  rw [List.foldl_map]
  exact (word?_foldl_observe "" [] (.inl rfl)).trans (congrArg some (Token.foldl_heard _))

end FirstWords

end ShellTokens
