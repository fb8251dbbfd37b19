import ShellTokens.Proofs.FirstWords
import ShellTokens.Proofs.Scanner.Boundary
import ShellTokens.Proofs.Scanner.Groups
import ShellTokens.Proofs.Scanner.Invisible

/-!
# The first word behind a group

A group that is closed gives back the word of the group around it. The first words do not know that
a substitution opens a parenthesis, and so its end takes a group that they do know of.
-/

namespace ShellTokens

namespace Scanner

variable {s t : Scanner}

/-! ## The depth is nothing to the tokens -/

def UpToDepth (s t : Scanner) : Prop := t = { s with depth := t.depth }

theorem UpToDepth.finish (h : s.UpToDepth t) (kind : Kind) :
    Step.Both UpToDepth (s.finish kind) (t.finish kind) := by
  rw [h]
  unfold Scanner.finish continuesLine
  simp only
  split
  · exact .silent rfl
  · exact .emit _ rfl

theorem UpToDepth.resumed (h : s.UpToDepth t) : s.resumed.UpToDepth t.resumed := by
  rw [h]
  unfold Scanner.resumed
  simp only
  split <;> rfl

theorem UpToDepth.marked (h : s.UpToDepth t) : s.marked.UpToDepth t.marked := by
  rw [h]
  unfold Scanner.marked
  simp only
  split <;> rfl

theorem UpToDepth.look (h : s.UpToDepth t) : Step.Both UpToDepth s.look t.look := by
  rw [h]
  exact look_both rfl (fun _ _ _ => rfl) (fun _ _ => finish) (fun _ _ => resumed)

theorem UpToDepth.emissions (h : s.UpToDepth t) : t.emissions = s.emissions :=
  (drain_both (fun _ _ h => h.marked.look) h).1

/-! ## A group in parentheses -/

variable {ahead : List UInt8}

theorem emissions_openParen (h : Ahead .blank ('('.toUInt8 :: ahead) s s) (after : Option Kind)
    (depth : Nat) : ({ s with after, depth } : Scanner).emissions = s.emissions := by
  have h' : Ahead .blank ('('.toUInt8 :: ahead) { s with after, depth } { s with after, depth } :=
    ⟨h.sound, h.unread, h.state, rfl, rfl, rfl⟩
  have hr : Rune.read ('('.toUInt8 :: ahead) = .char '(' :=
    Rune.read_utf8EncodeChar_append '(' ahead
  have hm (banged : Bool) : State.respond .blank banged (Rune.read ('('.toUInt8 :: ahead)) =
      .take .openParen := by rw [hr]; rfl
  have hc : ({ s with after, depth } : Scanner).reading.cursor = s.reading.cursor := by
    unfold reading marked
    simp only [h.state, if_true]
  have hs := h.step_take hm
  have hs' := h'.step_take hm
  rw [finish, if_neg (by simp)] at hs hs'
  rw [emissions_of_emit hs, emissions_of_emit hs', hc]
  refine congrArg _ (UpToDepth.emissions ?_)
  unfold UpToDepth reading marked
  simp only [h.state, if_true]
  rfl

theorem emissions_group (hs : s.cursor.Sound) (hb : s.state = .blank) (hn : s.saved = none)
    (hu : s.cursor.unread = []) (interactive : Bool) (later : List UInt8) :
    (s.append ('('.toUInt8 :: later)).emissions =
      ((fresh interactive).append ('('.toUInt8 :: later)).emissions := by
  let text := '('.toUInt8 :: later
  let t := (fresh interactive).append text
  have ht : Ahead .blank text t t :=
    ⟨sound_append (sound_fresh interactive) text, (sound_fresh interactive).unread_append text, rfl,
      rfl, rfl, rfl⟩
  have hs' : Ahead .blank text s (s.append text) := hb ▸ ahead_append_of_unread hs hu text
  have ht' : Ahead .blank text s { t with after := s.after, depth := s.depth } :=
    ⟨ht.sound, ht.unread, rfl, hn.symm, rfl, rfl⟩
  rw [← (hs'.meets ht').1, emissions_openParen ht]

end Scanner

def tokensOf (text : List UInt8) : List Token :=
  ((Scanner.fresh false).append text).emissions.map Emission.toToken

/-- The text is a group in parentheses that leaves nothing open. The parenthesis of a substitution
is one that is opened, too. -/
structure IsGroup (text : List UInt8) : Prop where
  head : text.head? = some '('.toUInt8
  tokens : ∃ inner, tokensOf text = ⟨.openParen, "("⟩ :: (inner ++ [⟨.closeParen, ")"⟩]) ∧
    Token.Balanced Kind.opensAnyGroup inner

namespace FirstWords

def stack : FirstWords → List String
  | .untracked => []
  | .tracked word outer => word :: outer

theorem countP_missed (ts : List Token) :
    ts.countP (fun t => t.kind.opensAnyGroup && !t.kind.opensGroup) =
      ts.countP (·.kind = .substitute) := by
  refine List.countP_congr fun t _ => ?_
  generalize t.kind = kind
  cases kind <;> decide

theorem foldl_observe_parens {inner : List Token} (h : Token.Balanced Kind.opensAnyGroup inner)
    {first last : Token} (ho : first.kind.opensGroup = true) (hc : last.kind.closesGroup = true)
    (word : String) (outer : List String) :
    ∃ word', (first :: (inner ++ [last])).foldl (fun w t => w.observe t) (tracked word outer) =
        .tracked word' (outer.drop (inner.countP (·.kind = .substitute))) ∧
      (inner.countP (·.kind = .substitute) ≤ outer.length →
        word' :: outer.drop (inner.countP (·.kind = .substitute)) =
          (word :: outer).drop (inner.countP (·.kind = .substitute))) := by
  have hmore (k : Kind) (hk : k.opensGroup = true) : k.opensAnyGroup = true := by
    rw [Kind.opensAnyGroup, hk, Bool.true_or]
  have hends (k : Kind) (hk : k.closesGroup = true) : k.opensAnyGroup = false := by
    cases k <;> first | rfl | cases hk
  obtain ⟨w, hw⟩ := foldl_observe_balanced h hmore hends "" (word :: outer)
  rw [countP_missed] at hw
  generalize inner.countP (·.kind = .substitute) = passed at hw
  rw [List.foldl_cons, observe_opens ho, List.foldl_append, hw, List.foldl_cons, List.foldl_nil,
    observe_closes hc, List.tail_drop, List.drop_succ_cons]
  refine ⟨_, rfl, fun hle => ?_⟩
  have hlt : passed < (word :: outer).length := Nat.lt_succ_of_le hle
  rw [List.drop_eq_getElem_cons hlt]
  rfl

end FirstWords

namespace Scanner

theorem words_behind_append (s : Scanner) (input : List UInt8) :
    (s.append input).behind.words =
      ((s.append input).emissions.map Emission.toToken).foldl (fun w t => w.observe t)
        s.words := by
  rw [(s.append input).drain_words.2, words_append, List.foldl_map]
  exact List.foldl_ext _ _ _ fun w e _ => e.noted_eq w

/-- A closed group without a substitution in it leaves the first words as they were. Each
substitution in it closes one of the groups around it, as long as there is one. -/
theorem stack_behind_group {s : Scanner} {es : List Emission} (h : Reached s es)
    (hb : s.state = .blank) (hu : s.cursor.unread = []) (hw : s.words ≠ .untracked)
    {text : List UInt8} (hg : IsGroup text) :
    let passed := (tokensOf text).countP (·.kind = .substitute)
    let words := (s.append text).behind.words
    words.depth = max 1 (s.words.depth - passed) ∧
      (passed < s.words.depth → words.stack = s.words.stack.drop passed) := by
  intro passed words
  obtain ⟨⟨rs, hh⟩, -⟩ := h.remembers
  have hn : s.saved = none := hh.holds.saved_eq (by rw [hb]; nofun)
  obtain ⟨later, rfl⟩ : ∃ later, text = '('.toUInt8 :: later := by
    have hhead := hg.head
    cases text with
    | nil => cases hhead
    | cons b later => exact ⟨later, by rw [Option.some.inj hhead]⟩
  obtain ⟨inner, ht, hi⟩ := hg.tokens
  have hwords : words =
      (⟨.openParen, "("⟩ :: (inner ++ [⟨.closeParen, ")"⟩])).foldl (fun w t => w.observe t)
        s.words := by
    rw [← ht, tokensOf, ← emissions_group hh.sound hb hn hu, ← words_behind_append]
  have hp : passed = inner.countP (·.kind = .substitute) := by
    simp only [passed, ht]
    simp
  rcases hsw : s.words with _ | ⟨word, outer⟩
  · exact absurd hsw hw
  · have ho : (⟨.openParen, "("⟩ : Token).kind.opensGroup = true := rfl
    have hc : (⟨.closeParen, ")"⟩ : Token).kind.closesGroup = true := rfl
    obtain ⟨word', hw', hs⟩ := FirstWords.foldl_observe_parens hi ho hc word outer
    rw [hwords, hsw, hw', ← hp]
    rw [← hp] at hs
    refine ⟨?_, fun hlt => hs (Nat.le_of_lt_succ hlt)⟩
    simp only [FirstWords.depth, List.length_drop]
    omega

theorem stack_behind_braces :
    let s := ((fresh true).append (Text.bytes "a (b ; (c ")).behind
    let text := Text.bytes "(d \x7b e <(f) \x7d)"
    s.state = .blank ∧ s.cursor.unread = [] ∧ s.words = .tracked "c" ["b", "a"] ∧ IsGroup text ∧
      (s.append text).behind.words.depth = 2 ∧
      (s.append text).behind.words.stack = ["b", "a"] := by
  -- Two groups are open. The one behind them has braces in it, and a substitution in these.
  intro s text
  have h : Reached s _ := ((Reached.fresh true).append (Text.bytes "a (b ; (c ")).behind
  have hb : s.state = .blank := by decide +kernel
  have hu : s.cursor.unread = [] := by decide +kernel
  have hw : s.words = .tracked "c" ["b", "a"] := by decide +kernel
  have ht : tokensOf text =
      [⟨.openParen, "("⟩, ⟨.symbol, "d"⟩, ⟨.openBrace, "\x7b"⟩, ⟨.symbol, "e"⟩,
        ⟨.substitute, "_substitute_stdout_"⟩, ⟨.symbol, "f"⟩, ⟨.closeParen, ")"⟩,
        ⟨.closeBrace, "\x7d"⟩, ⟨.closeParen, ")"⟩] := by decide +kernel
  have hs : Token.Balanced Kind.opensAnyGroup
      (⟨.substitute, "_substitute_stdout_"⟩ :: ([⟨.symbol, "f"⟩] ++ ⟨.closeParen, ")"⟩ :: [])) :=
    .group rfl (.plain rfl rfl .nil) rfl .nil
  have hi : Token.Balanced Kind.opensAnyGroup
      (⟨.symbol, "d"⟩ :: ⟨.openBrace, "\x7b"⟩ :: ((⟨.symbol, "e"⟩ ::
        ⟨.substitute, "_substitute_stdout_"⟩ :: ([⟨.symbol, "f"⟩] ++ [⟨.closeParen, ")"⟩])) ++
        ⟨.closeBrace, "\x7d"⟩ :: [])) :=
    .plain rfl rfl (.group rfl (.plain rfl rfl hs) rfl .nil)
  have hg : IsGroup text := ⟨rfl, _, ht, hi⟩
  obtain ⟨hd, hstack⟩ := stack_behind_group h hb hu (by rw [hw]; nofun) hg
  rw [ht, hw] at hd hstack
  exact ⟨hb, hu, hw, hg, hd, hstack (by decide)⟩

/-- The end of the substitution closes the group, and the end of the group closes the one around. -/
theorem word?_behind_substitution :
    let s := ((fresh true).append (Text.bytes "(a (b ")).behind
    let text := Text.bytes "(<(c))"
    s.state = .blank ∧ s.cursor.unread = [] ∧ IsGroup text ∧
      s.words.word? = some "b" ∧ s.words.depth = 3 ∧
      (s.append text).behind.words.word? = some "a" ∧ (s.append text).behind.words.depth = 2 := by
  intro s text
  have ht : tokensOf text =
      [⟨.openParen, "("⟩, ⟨.substitute, "_substitute_stdout_"⟩, ⟨.symbol, "c"⟩,
        ⟨.closeParen, ")"⟩, ⟨.closeParen, ")"⟩] := by decide +kernel
  have hi : Token.Balanced Kind.opensAnyGroup
      (⟨.substitute, "_substitute_stdout_"⟩ :: ([⟨.symbol, "c"⟩] ++ ⟨.closeParen, ")"⟩ :: [])) :=
    .group rfl (.plain rfl rfl .nil) rfl .nil
  exact ⟨by decide +kernel, by decide +kernel, ⟨rfl, _, ht, hi⟩, by decide +kernel,
    by decide +kernel, by decide +kernel, by decide +kernel⟩

end Scanner

end ShellTokens
