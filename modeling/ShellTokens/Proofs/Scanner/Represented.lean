import ShellTokens.Proofs.Cursor.Taken
import ShellTokens.Proofs.FirstWords
import ShellTokens.Proofs.Scanner.Groups
import ShellTokens.Proofs.Scanner.Past

/-!
# What a scanner can rely on

The fields of a scanner are not free of each other: the state says how the bytes of the token under
way begin, and whether there is a state to go back to. That holds whatever has been done with the
scanner, so what a step does in the cases that cannot come up is never seen.
-/

namespace ShellTokens

open Rune (Shown)

/-! ## What the state says of the bytes -/

/-- How the token under way is spelled so far. -/
def State.Demands : State → List UInt8 → Prop
  | blank, _ => True
  | comment, bs => Text.bytes "#" <+: bs
  | symbol, bs => bs ≠ []
  | singleQuoted, bs => Text.bytes "'" <+: bs
  | doubleQuoted, bs => Text.bytes "\"" <+: bs
  | bangString, bs => Text.bytes "!\"" <+: bs
  | afterBackslash, bs => Text.bytes "\\" <:+ bs
  | afterAmpersand, bs => bs = Text.bytes "&"
  | afterBang, bs => bs = Text.bytes "!"
  | afterBangGreater, bs => bs = Text.bytes "!>"
  | afterColon, bs => bs = Text.bytes ":"
  | afterGreater, bs => bs = Text.bytes ">"
  | afterLess, bs => bs = Text.bytes "<"
  | afterPipe, bs => bs = Text.bytes "|" ∨ bs = Text.bytes "!|"

namespace State

variable {s back : State} {saved : Option State} {rs : List Rune}

theorem Within.demands (h : s.Within rs) (more : List UInt8)
    (hne : rs.flatMap Rune.bytes ++ more ≠ []) : s.Demands (rs.flatMap Rune.bytes ++ more) := by
  cases h with
  | symbol _ _ => exact hne
  | doubleQuoted _ => exact ⟨_, rfl⟩
  | bangString _ => exact ⟨_, rfl⟩

theorem Holds.demands (h : s.Holds saved rs) (hne : rs ≠ [] → rs.flatMap Rune.bytes ≠ []) :
    s.Demands (rs.flatMap Rune.bytes) := by
  cases h with
  | within hrs h =>
    have hd := h.demands []
    rw [List.append_nil] at hd
    exact hd (hne hrs)
  | blank => trivial
  | comment _ => exact ⟨_, rfl⟩
  | singleQuoted _ => exact ⟨_, rfl⟩
  | @afterBackslash back rs _ =>
    rw [List.flatMap_append]
    exact ⟨rs.flatMap Rune.bytes, rfl⟩
  | afterPipe => exact .inl rfl
  | afterBangPipe => exact .inr rfl
  | _ => rfl

theorem Holds.saved_iff (h : s.Holds saved rs) : saved.isSome = true ↔ s = .afterBackslash := by
  cases h with
  | within _ h => cases h <;> simp
  | _ => simp

theorem Holds.exists_within (h : s.Holds saved rs) (hb : saved = some back) :
    ∃ qs, back.Within qs ∧ rs = qs ++ [.char '\\'] := by
  cases h with
  | @afterBackslash back qs h =>
    cases hb
    exact ⟨qs, h, rfl⟩
  | _ => cases hb

end State

/-! ## What ends a token -/

def Token.hasNormal (kind : Kind) (text : String) : Bool :=
  match kind with
  | .singleQuoted | .doubleQuoted => (Text.inside? 1 text).isSome
  | .bangString => (Text.inside? 2 text).isSome
  | .background | .and | .or | .pipe | .redirect | .substitute =>
    (Operator.ofSpelling? text).isSome
  | _ => true

theorem Token.hasNormal_spelling :
    ∀ o ∈ Operator.all, Token.hasNormal o.kind o.spelling = true := by decide

theorem Rune.Shown.isSome_inside? (opening : List Char) {close : Char} {inner : List Rune}
    {cs : List Char} (hs : Shown (opening.map .char ++ (inner ++ [.char close])) cs)
    (hc : close.utf8Size = 1) :
    (Text.inside? (Text.encoded opening).length (String.ofList cs)).isSome = true := by
  obtain ⟨text, rfl, -⟩ := Kind.Spelled.exists_quoted opening hs
  rw [Text.inside?_quotes opening text close hc]
  rfl

theorem Kind.Spelled.hasNormal {kind : Kind} {rs : List Rune} {text : String}
    (h : kind.Spelled rs) (hs : Shown rs text.toList) : Token.hasNormal kind text = true := by
  rw [← String.ofList_toList (s := text)]
  generalize text.toList = cs at hs
  cases h with
  | @one kind c h => cases kind <;> first | rfl | cases h
  | comment _ => rfl
  | operator h =>
    obtain rfl := Shown.of_chars _ hs
    rw [String.ofList_toList]
    exact Token.hasNormal_spelling _ h
  | cons => rfl
  | singleQuoted _ => exact Shown.isSome_inside? ['\''] hs rfl
  | doubleQuoted _ => exact Shown.isSome_inside? ['"'] hs rfl
  | bangString _ => exact Shown.isSome_inside? ['!', '"'] hs rfl
  | word _ => rfl

/-! ## What the cursor and the words keep -/

def Cursor.CanGoBack (c : Cursor) : Prop :=
  c.lastWidth ≤ c.position ∧ c.start ≤ c.position - c.lastWidth

theorem Cursor.Sound.canGoBack_next {c : Cursor} (h : c.Sound) : c.next.2.CanGoBack := by
  have hs := h.start_le
  simp only [CanGoBack, Cursor.next, skip]
  omega

theorem FirstWords.depth_observe {w : FirstWords} {groups : List Token}
    (h : w.depth = groups.length + 1) (t : Token) :
    (w.observe t).depth = (Token.nest Kind.opensGroup groups t).length + 1 := by
  cases w with
  | untracked => cases h
  | tracked word outer =>
    simp only [depth, Nat.add_right_cancel_iff] at h
    unfold Token.nest
    by_cases ho : t.kind.opensGroup = true
    · rw [observe_opens ho, if_pos ho, depth, List.length_cons, List.length_cons, h]
    · rw [if_neg ho]
      rw [Bool.not_eq_true] at ho
      by_cases hc : t.kind.closesGroup = true
      · rw [observe_closes hc, if_pos hc, depth, List.length_tail, List.length_tail, h]
      · rw [if_neg hc]
        rw [Bool.not_eq_true] at hc
        rw [observe_plain ho hc, depth, h]

namespace Scanner

variable {s t : Scanner} {rs : List Rune} {kind : Kind} {text : String}

def ended? (s : Scanner) : Option (Kind × String) :=
  let ahead := s.cursor.next.2
  match s.state.respond (s.cursor.firstByte? = some '!'.toUInt8) s.cursor.peek with
  | .take kind => some (kind, ahead.text)
  | .leave kind => some (kind, ahead.back.text)
  | _ => none

theorem normal_of_finish {x : Token} (h : s.finish kind = .emit (.token x) t) :
    x = Token.normal kind s.cursor.text := by
  unfold finish at h
  split at h
  · cases h
  · cases h
    rfl

theorem exists_ended {x : Token} (h : s.step = .emit (.token x) t) :
    ∃ kind text, s.marked.ended? = some (kind, text) ∧ x = Token.normal kind text := by
  rw [step] at h
  generalize s.marked = s at h ⊢
  unfold look at h
  unfold ended?
  simp only at h ⊢
  generalize s.state.respond _ _ = m at h ⊢
  cases m with
  | take kind =>
    have hx := normal_of_finish h
    exact ⟨kind, _, rfl, hx⟩
  | leave kind =>
    have hx := normal_of_finish h
    exact ⟨kind, _, rfl, hx⟩
  | _ => cases h

/-! ## The invariant -/

/-- What the fields say of each other. -/
structure Represented (s : Scanner) : Prop where
  /-- `start` is no later than `position`, and that is in the buffer. -/
  sound : s.cursor.Sound
  saved_iff : s.saved.isSome = true ↔ s.state = .afterBackslash
  saved_mem : ∀ back, s.saved = some back → back ∈ [State.symbol, .doubleQuoted, .bangString]
  demands : s.state.Demands s.cursor.tokenBytes
  /-- The state that an escape goes back to finds what it demands. -/
  resumes : ∀ back, s.saved = some back → back.Demands s.cursor.tokenBytes

/-- What a step takes for granted. -/
structure Provided (s : Scanner) : Prop where
  -- The parts of the buffer that are looked at lie in it.
  marked : s.marked.cursor.Sound
  next : s.marked.cursor.next.2.Sound
  back : s.marked.cursor.next.2.back.Sound
  canGoBack : s.marked.cursor.next.2.CanGoBack
  /-- An escape knows where to go back to. -/
  saved : s.state = .afterBackslash → s.saved ≠ none
  hasNormal : ∀ kind text, s.marked.ended? = some (kind, text) →
    Token.hasNormal kind text = true
  /-- No other token comes out. -/
  emitted : ∀ x t, s.step = .emit (.token x) t →
    ∃ kind text, s.marked.ended? = some (kind, text) ∧ x = Token.normal kind text

/-- The scanner comes by on the way to the next token. -/
inductive Passes (s : Scanner) : Scanner → Prop
  | start : Passes s s
  | on {t u : Scanner} (h : Passes s t) (ht : t.step = .silent u) : Passes s u

theorem Has.passes (h : s.Has rs) (ht : s.Passes t) : ∃ qs, t.Has qs := by
  induction ht with
  | start => exact ⟨rs, h⟩
  | on _ ht ih =>
    obtain ⟨qs, hq⟩ := ih
    have htiles := hq.tiles
    rw [ht] at htiles
    exact (htiles.remembers rfl).1

theorem Has.represented (h : s.Has rs) : s.Represented := by
  have hne := h.row.flatMap_bytes_ne_nil
  have hbytes (hb : s.state ≠ .blank) : s.cursor.tokenBytes = rs.flatMap Rune.bytes := by
    have hm : s.marked = s := if_neg hb
    rw [← h.hasRead.tokenBytes_eq, hm]
  have hback (back : State) (hb : s.saved = some back) : back.Demands s.cursor.tokenBytes ∧
      back ∈ [State.symbol, .doubleQuoted, .bangString] := by
    obtain ⟨qs, hw, rfl⟩ := h.holds.exists_within hb
    have ha : s.state = .afterBackslash := h.holds.saved_iff.1 (by rw [hb]; rfl)
    have hd := hne (List.append_ne_nil_of_right_ne_nil qs (List.cons_ne_nil _ _))
    rw [hbytes (by rw [ha]; nofun)]
    rw [List.flatMap_append] at hd ⊢
    exact ⟨hw.demands _ hd, by cases hw <;> decide⟩
  refine ⟨h.sound, h.holds.saved_iff, fun back hb => (hback back hb).2, ?_,
    fun back hb => (hback back hb).1⟩
  by_cases hb : s.state = .blank
  · rw [hb]
    trivial
  · rw [hbytes hb]
    exact h.holds.demands hne

theorem Has.hasNormal (h : s.Has rs) (he : s.marked.ended? = some (kind, text)) :
    Token.hasNormal kind text = true := by
  have hsuits := h.holds.suits _ h.banged s.marked.cursor.peek
  rw [← state_marked] at hsuits
  unfold ended? at he
  simp only at he
  generalize hm : s.marked.state.respond _ _ = m at hsuits he
  cases m with
  | take kind =>
    cases he
    have hp : s.marked.cursor.peek ≠ .exhausted := by
      intro hp
      rw [State.respond_eq_halt_iff.2 hp] at hm
      cases hm
    exact hsuits.hasNormal (h.hasRead.read hp).shown
  | leave kind =>
    cases he
    exact hsuits.hasNormal h.hasRead.back_next.shown
  | _ => cases he

theorem Has.provided (h : s.Has rs) : s.Provided := by
  have hs := sound_marked h.sound
  refine ⟨hs, hs.next, hs.back_next, hs.canGoBack_next, fun ha hn => ?_,
    fun _ _ => h.hasNormal, fun _ _ => exists_ended⟩
  have hsome := h.holds.saved_iff.2 ha
  rw [hn] at hsome
  cases hsome

/-! ## The first words of the open groups -/

theorem depth_words_scan (h : s.words.depth = s.depth + 1) :
    s.scan.2.words.depth = s.scan.2.depth + 1 := by
  -- Whatever groups these are, there are as many as the scanner counts.
  have hlen (s : Scanner) : s.depth = (List.replicate s.depth Token.interrupt).length :=
    List.length_replicate.symm
  induction s using step_induction with
  | halt s t hs =>
    rw [scan_of_halt hs, step_halt hs, words_marked, depth_marked]
    exact h
  | silent s t hs ih =>
    have hw := s.step_words
    have hc := counts_step (hlen s)
    rw [hs] at hw hc
    rw [scan_of_silent hs]
    refine ih ?_
    rw [hw, h, hc, ← hlen]
  | emit s e t hs ih =>
    have hw := s.step_words
    have hc := counts_step (hlen s)
    rw [hs] at hw hc
    rw [scan_of_emit hs, hw, hc, e.noted_eq]
    refine FirstWords.depth_observe ?_ e.toToken
    rw [h, ← hlen]

theorem depth_words_relive {past : List Deed} (hd : .discard ∉ past)
    (ht : ∀ words, .track words ∉ past) :
    (relive true past).words.depth = (relive true past).depth + 1 := by
  induction past using List.reverseRecOn with
  | nil => rfl
  | append_singleton past d ih =>
    simp only [List.mem_append, List.mem_singleton, not_or] at hd ht
    have hp := ih hd.1 fun words => (ht words).1
    rw [relive_concat]
    cases d with
    | append chunk => exact hp
    | scan => exact depth_words_scan hp
    | discard => exact absurd rfl hd.2
    | track words => exact absurd rfl (ht words).2
    | snapshot => exact hp

/-- Whatever has been done with a scanner and with those it is a copy of, its fields fit each other,
also wherever it comes by in a scan, and no step meets with what it is not provided for. If nothing
has been discarded and its first words have been left to it, there is one for each group that it
counts and one more. -/
theorem represented_of_past (interactive : Bool) (deeds : List (Nat × Deed)) (place : Nat)
    (s : Scanner) (hs : (performAll deeds [fresh interactive])[place]? = some s) :
    s.Represented ∧ (∀ t, s.Passes t → t.Represented ∧ t.Provided) ∧
      ∃ past, (pastsAll deeds [[]])[place]? = some past ∧
        (interactive = true → .discard ∉ past → (∀ words, .track words ∉ past) →
          s.words.depth = s.depth + 1) := by
  obtain ⟨past, hpast, rfl⟩ := exists_past hs
  obtain ⟨rs, h⟩ := exists_has (List.mem_of_getElem? hs)
  refine ⟨h.represented, fun t ht => ?_, past, hpast, ?_⟩
  · obtain ⟨qs, hq⟩ := h.passes ht
    exact ⟨hq.represented, hq.provided⟩
  · rintro rfl hd ht
    exact depth_words_relive hd ht

theorem represented_behind_discard :
    let deeds : List (Nat × Deed) := [(0, .append (Text.bytes "(a \"b\\")), (0, .scan), (0, .scan),
      (0, .snapshot), (0, .discard), (1, .scan)]
    ∃ s, (performAll deeds [fresh true])[1]? = some s ∧ s.state = .afterBackslash ∧
      s.Represented ∧ s.Provided ∧ s.words.depth = s.depth + 1 := by
  -- The first scanner discards what it has read, and its copy is still behind the backslash in a
  -- quoted text of a group.
  intro deeds
  have hany : ((performAll deeds [fresh true])[1]?.any (·.state = .afterBackslash)) = true := by
    decide +kernel
  obtain ⟨s, hs, hstate⟩ := (Option.any_eq_true _ _).1 hany
  obtain ⟨hr, hpass, past, hpast, hdepth⟩ := represented_of_past true deeds 1 s hs
  cases hpast
  refine ⟨s, hs, of_decide_eq_true hstate, hr, (hpass s .start).2, hdepth rfl ?_ ?_⟩
  · simp
  · simp

end Scanner

end ShellTokens
