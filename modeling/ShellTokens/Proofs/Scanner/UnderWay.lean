import ShellTokens.Proofs.Token.Spelled

/-!
# The token under way

In each state the runes that have been read for the token under way have a shape of their own. It
is what the end of the token needs to make it one of its kind.
-/

namespace ShellTokens

open Text (unbroken)
open Rune (shownAs)

/-! ## The shapes -/

/-- What has been read of a token that goes on in the state when no escape is open. -/
inductive State.Within : State → List Rune → Prop
  | symbol {rs : List Rune} (hf : (rs.map shownAs).head? ≠ some '\x7d')
      (hu : unbroken State.isDelimiter (rs.map shownAs) = true) : Within .symbol rs
  | doubleQuoted {inner : List Rune} (hu : unbroken (· = '"') (inner.map shownAs) = true) :
      Within .doubleQuoted (.char '"' :: inner)
  | bangString {inner : List Rune} (hu : unbroken (· = '"') (inner.map shownAs) = true) :
      Within .bangString (.char '!' :: .char '"' :: inner)

/-- What has been read of the token under way. Behind a backslash, `saved` is where it goes on. -/
inductive State.Holds : State → Option State → List Rune → Prop
  | blank : Holds .blank none []
  | comment {inner : List Rune} (h : '\n' ∉ inner.map shownAs) :
      Holds .comment none (.char '#' :: inner)
  | within {state : State} {rs : List Rune} (hne : rs ≠ []) (h : state.Within rs) :
      Holds state none rs
  | singleQuoted {inner : List Rune} (h : '\'' ∉ inner.map shownAs) :
      Holds .singleQuoted none (.char '\'' :: inner)
  | afterBackslash {back : State} {rs : List Rune} (h : back.Within rs) :
      Holds .afterBackslash (some back) (rs ++ [.char '\\'])
  | afterAmpersand : Holds .afterAmpersand none [.char '&']
  | afterBang : Holds .afterBang none [.char '!']
  | afterBangGreater : Holds .afterBangGreater none [.char '!', .char '>']
  | afterColon : Holds .afterColon none [.char ':']
  | afterGreater : Holds .afterGreater none [.char '>']
  | afterLess : Holds .afterLess none [.char '<']
  | afterPipe : Holds .afterPipe none [.char '|']
  | afterBangPipe : Holds .afterPipe none [.char '!', .char '|']

namespace State

variable {s : State} {saved : Option State} {rs : List Rune} {r : Rune} {banged : Bool}

def ends : State → Char → Bool
  | symbol => isDelimiter
  | _ => (· = '"')

theorem Holds.eq_nil (h : State.blank.Holds saved rs) : rs = [] := by
  cases h with
  | blank => rfl
  | within _ h => cases h

theorem Holds.saved_eq (h : s.Holds saved rs) (hs : s ≠ .afterBackslash) : saved = none := by
  cases h with
  | afterBackslash => exact absurd rfl hs
  | _ => rfl

theorem Holds.exists_back (h : State.afterBackslash.Holds saved rs) :
    ∃ back, saved = some back ∧ back ≠ .blank := by
  cases h with
  | within _ h => cases h
  | @afterBackslash back _ h =>
    refine ⟨back, rfl, ?_⟩
    cases h <;> nofun

theorem ne_afterBackslash {kind : Kind}
    (h : s.respond banged r = .take kind ∨ s.respond banged r = .leave kind) :
    s ≠ .afterBackslash := by
  rintro rfl
  cases r <;> rcases h with h | h <;> cases h

theorem unbroken_snoc {stop : Char → Bool} (hu : unbroken stop (rs.map shownAs) = true)
    (hs : stop (shownAs r) = false) (hb : shownAs r ≠ '\\') :
    unbroken stop ((rs ++ [r]).map shownAs) = true := by
  rw [List.map_append, Text.unbroken_append hu, List.map_singleton, Text.unbroken_cons hb, hs]
  rfl

theorem unbroken_snoc_escaped {stop : Char → Bool} (hu : unbroken stop (rs.map shownAs) = true)
    (r : Rune) : unbroken stop ((rs ++ [Rune.char '\\'] ++ [r]).map shownAs) = true := by
  rw [List.append_assoc, List.map_append, Text.unbroken_append hu]
  rfl

theorem Within.snoc (h : s.Within rs) (hs : s.ends (shownAs r) = false) (hb : shownAs r ≠ '\\')
    (hf : rs = [] → shownAs r ≠ '\x7d') : s.Within (rs ++ [r]) := by
  cases h with
  | symbol hh hu =>
    refine .symbol ?_ (unbroken_snoc hu hs hb)
    cases rs with
    | nil => simpa using hf rfl
    | cons _ _ => exact hh
  | doubleQuoted hu => exact .doubleQuoted (unbroken_snoc hu hs hb)
  | bangString hu => exact .bangString (unbroken_snoc hu hs hb)

theorem Within.snoc_escaped (h : s.Within rs) (r : Rune) :
    s.Within (rs ++ [.char '\\'] ++ [r]) := by
  cases h with
  | symbol hh hu =>
    refine .symbol ?_ (unbroken_snoc_escaped hu r)
    cases rs with
    | nil => simp [shownAs]
    | cons _ _ => exact hh
  | doubleQuoted hu => exact .doubleQuoted (unbroken_snoc_escaped hu r)
  | bangString hu => exact .bangString (unbroken_snoc_escaped hu r)

theorem notMem_snoc {c : Char} (h : c ∉ rs.map shownAs) (hr : shownAs r ≠ c) :
    c ∉ (rs ++ [r]).map shownAs := by
  rw [List.map_append, List.mem_append, List.map_singleton, List.mem_singleton, not_or]
  exact ⟨h, Ne.symm hr⟩

end State

/-! ## The moves -/

/-- What the move makes of the token under way, when it is made at the rune `r` in the state `s`.
Between tokens a blank and a byte that is no text begin none. -/
def Move.Suits (s : State) (saved : Option State) (rs : List Rune) (r : Rune) : Move → Prop
  | .halt => r = .exhausted
  | .keep => (s = .blank ∧ ∃ c, r = .char c ∧ Text.isBlank c = true) ∨ s.Holds saved (rs ++ [r])
  | .enter next => next.Holds saved (rs ++ [r])
  | .become next => next.Holds saved rs
  | .escape back => State.afterBackslash.Holds (some back) (rs ++ [r])
  | .resume => s = .afterBackslash ∧ (saved.getD .symbol).Holds none (rs ++ [r])
  | .take kind => kind.Spelled (rs ++ [r])
  | .leave kind => kind.Spelled rs
  | .reject byte => r = .invalid byte ∧ (s = .blank ∨
      (s = .afterBackslash ∧ (saved.getD .symbol).Holds none (rs ++ [r])) ∨
      (s ≠ .afterBackslash ∧ s.Holds saved (rs ++ [r])))

namespace State

variable {s : State} {saved : Option State} {rs : List Rune}

theorem suits_first (c : Char) : (first c).Suits .blank none [] (.char c) := by
  have hword (hd : isDelimiter c = false) (hc : c ≠ '\x7d') (hb : c ≠ '\\') :
      (Move.enter .symbol).Suits .blank none [] (.char c) := by
    refine .within (List.cons_ne_nil _ _) (.symbol (by simpa [shownAs] using hc) ?_)
    rw [List.nil_append, List.map_singleton, shownAs, Text.unbroken_cons hb, hd]
    rfl
  unfold first
  split
  case h_1 | h_2 | h_3 => exact .inl ⟨rfl, _, rfl, rfl⟩
  case h_4 | h_5 | h_6 | h_7 | h_8 | h_9 | h_10 | h_11 => exact .one rfl
  · exact .afterBang
  · exact .within (List.cons_ne_nil _ _) (@Within.doubleQuoted [] rfl)
  · exact @Holds.comment [] nofun
  · exact .afterAmpersand
  · exact @Holds.singleQuoted [] nofun
  · exact .afterColon
  · exact .afterLess
  · exact .afterGreater
  · exact @Holds.afterBackslash _ [] (.symbol nofun rfl)
  · exact .afterPipe
  · refine hword (decide_eq_false ?_) ‹_› ‹_›
    simp only [List.mem_cons, List.not_mem_nil, or_false, not_or]
    and_intros <;> assumption

theorem suits_if {c d : Char} {m n : Move} (hm : m.Suits s saved rs (.char d))
    (hn : c ≠ d → n.Suits s saved rs (.char c)) :
    (if c = d then m else n).Suits s saved rs (.char c) := by
  split
  next hc => exact hc ▸ hm
  next hc => exact hn hc

theorem Within.suits (h : s.Within rs) (hne : rs ≠ []) (banged : Bool) (r : Rune) :
    (s.respond banged r).Suits s none rs r := by
  have hmore (he : s.ends (shownAs r) = false) (hb : shownAs r ≠ '\\') :
      s.Holds none (rs ++ [r]) :=
    .within (List.append_ne_nil_of_left_ne_nil hne [r]) (h.snoc he hb fun h => absurd h hne)
  cases r with
  | exhausted => cases h <;> rfl
  | invalid b =>
    have he : s.ends (shownAs (.invalid b)) = false := by cases h <;> rfl
    have hholds := hmore he (show Text.replacement ≠ _ by decide)
    cases h <;> exact ⟨rfl, .inr (.inr ⟨nofun, hholds⟩)⟩
  | char c =>
    have hescape : (Move.escape s).Suits s none rs (.char '\\') := .afterBackslash h
    cases h with
    | symbol hh hu =>
      rw [respond, onChar]
      split
      · refine .word ?_
        simp only [Text.isWord, Bool.and_eq_true, Bool.not_eq_true', List.isEmpty_eq_false_iff,
          ne_eq, List.map_eq_nil_iff, bne_iff_ne]
        exact ⟨⟨hne, hh⟩, hu⟩
      next hd =>
        exact suits_if hescape fun hb => .inr (hmore (Bool.not_eq_true _ ▸ hd) hb)
    | doubleQuoted hu =>
      exact suits_if (.doubleQuoted hu) fun hc =>
        suits_if hescape fun hb => .inr (hmore (decide_eq_false hc) hb)
    | bangString hu =>
      exact suits_if (.bangString hu) fun hc =>
        suits_if hescape fun hb => .inr (hmore (decide_eq_false hc) hb)

theorem suits_of_leave {kind : Kind} {banged : Bool} (h : kind.Spelled rs)
    (ho : s.otherwise = .leave kind) (hi : ∀ b, s.onInvalid b = s.otherwise)
    (hc : ∀ c, s.otherwise.Suits s saved rs (.char c) →
      (s.onChar banged c).Suits s saved rs (.char c)) (r : Rune) :
    (s.respond banged r).Suits s saved rs r := by
  have hleave (r : Rune) : s.otherwise.Suits s saved rs r := ho ▸ h
  cases r with
  | exhausted => rfl
  | invalid b =>
    rw [respond, hi b]
    exact hleave _
  | char c => exact hc c (hleave _)

theorem Holds.suits (h : s.Holds saved rs) (banged : Bool)
    (hb : rs.head? = some (.char '!') → banged = true) (r : Rune) :
    (s.respond banged r).Suits s saved rs r := by
  cases h with
  | blank =>
    cases r with
    | exhausted => rfl
    | invalid b => exact ⟨rfl, .inl rfl⟩
    | char c => exact suits_first c
  | within hne h => exact h.suits hne banged r
  | comment h =>
    cases r with
    | exhausted => rfl
    | invalid b => exact .inr (.comment (notMem_snoc h (show Text.replacement ≠ _ by decide)))
    | char c => exact suits_if (.comment h) fun hc => .inr (.comment (notMem_snoc h hc))
  | singleQuoted h =>
    cases r with
    | exhausted => rfl
    | invalid b =>
      have hr : Text.replacement ≠ '\'' := by decide
      exact ⟨rfl, .inr (.inr ⟨by decide, .singleQuoted (notMem_snoc h hr)⟩)⟩
    | char c => exact suits_if (.singleQuoted h) fun hc => .inr (.singleQuoted (notMem_snoc h hc))
  | afterBackslash h =>
    have hback : State.Holds _ none _ :=
      .within (List.append_ne_nil_of_right_ne_nil _ (List.cons_ne_nil r [])) (h.snoc_escaped r)
    cases r with
    | exhausted => rfl
    | invalid b => exact ⟨rfl, .inr (.inl ⟨rfl, hback⟩)⟩
    | char c => exact ⟨rfl, hback⟩
  | afterBang =>
    have hword : State.symbol.Holds none [.char '!'] :=
      .within (List.cons_ne_nil _ _) (.symbol (by decide) rfl)
    cases r with
    | exhausted => rfl
    | invalid b => exact hword
    | char c =>
      have hstring : State.bangString.Holds none [.char '!', .char '"'] :=
        .within (List.cons_ne_nil _ _) (@Within.bangString [] rfl)
      exact suits_if hstring fun _ => suits_if .afterBangGreater fun _ =>
        suits_if .afterBangPipe fun _ => hword
  | afterColon =>
    refine suits_of_leave (.one rfl) rfl (fun _ => rfl) (fun c h => ?_) r
    exact suits_if .cons fun _ => h
  | afterAmpersand =>
    refine suits_of_leave (.operator (o := ⟨"&", .background, "spawn"⟩) (by decide)) rfl
      (fun _ => rfl) (fun c h => ?_) r
    exact suits_if (.operator (o := ⟨"&&", .and, "and"⟩) (by decide)) fun _ => h
  | afterBangGreater =>
    refine suits_of_leave (.operator (o := ⟨"!>", .redirect, "_redirect_stderr_"⟩) (by decide)) rfl
      (fun _ => rfl) (fun c h => ?_) r
    exact suits_if (.operator (o := ⟨"!>>", .redirect, "_append_stderr_"⟩) (by decide)) fun _ => h
  | afterGreater =>
    refine suits_of_leave (.operator (o := ⟨">", .redirect, "_redirect_stdout_"⟩) (by decide)) rfl
      (fun _ => rfl) (fun c h => ?_) r
    refine suits_if (.operator (o := ⟨">(", .substitute, "_substitute_stdin_"⟩) (by decide)) ?_
    exact fun _ =>
      suits_if (.operator (o := ⟨">>", .redirect, "_append_stdout_"⟩) (by decide)) fun _ => h
  | afterLess =>
    refine suits_of_leave (.operator (o := ⟨"<", .redirect, "_redirect_stdin_"⟩) (by decide)) rfl
      (fun _ => rfl) (fun c h => ?_) r
    exact suits_if (.operator (o := ⟨"<(", .substitute, "_substitute_stdout_"⟩) (by decide))
      fun _ => h
  | afterPipe =>
    refine suits_of_leave (.operator (o := ⟨"|", .pipe, "_pipe_stdout_"⟩) (by decide)) rfl
      (fun _ => rfl) (fun c h => ?_) r
    refine suits_if (.operator (o := ⟨"|+", .pipe, "_channel_stdout_"⟩) (by decide)) fun _ => ?_
    split
    next hc =>
      simp only [Bool.and_eq_true, decide_eq_true_eq] at hc
      rw [hc.1]
      exact .operator (o := ⟨"||", .or, "or"⟩) (by decide)
    · exact h
  | afterBangPipe =>
    refine suits_of_leave (.operator (o := ⟨"!|", .pipe, "_pipe_stderr_"⟩) (by decide)) rfl
      (fun _ => rfl) (fun c h => ?_) r
    refine suits_if (.operator (o := ⟨"!|+", .pipe, "_channel_stderr_"⟩) (by decide)) fun _ => ?_
    -- After `!|` another `|` does not join.
    rw [hb rfl, Bool.not_true, Bool.and_false]
    exact h

end State

end ShellTokens
