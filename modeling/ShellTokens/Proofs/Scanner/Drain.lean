import ShellTokens.Proofs.Scanner.Standing

/-!
# All that comes out of the input

Scanning to the end of the input goes step by step. What comes out of more input is what comes out
of the first part, and then what comes out of the rest behind it.
-/

namespace ShellTokens

namespace Scanner

variable {input : List UInt8} {s t : Scanner} {e : Emission}

/-! ## Step by step -/

theorem scan_of_halt (h : s.step = .halt t) : s.scan = (none, t) := by
  rw [scan]
  split
  · next hs => rw [hs] at h; cases h; rfl
  · next hs => rw [hs] at h; cases h
  · next hs => rw [hs] at h; cases h

theorem scan_of_silent (h : s.step = .silent t) : s.scan = t.scan := by
  rw [scan]
  split
  · next hs => rw [hs] at h; cases h
  · next hs => rw [hs] at h; cases h; rfl
  · next hs => rw [hs] at h; cases h

theorem scan_of_emit (h : s.step = .emit e t) : s.scan = (some e, t) := by
  rw [scan]
  split
  · next hs => rw [hs] at h; cases h
  · next hs => rw [hs] at h; cases h
  · next hs => rw [hs] at h; cases h; rfl

theorem drain_of_scan_none (h : s.scan = (none, t)) : s.drain = ([], t) := by
  rw [drain]
  split
  · next hs => rw [hs] at h; cases h; rfl
  · next hs => rw [hs] at h; cases h

theorem drain_of_scan_some (h : s.scan = (some e, t)) :
    s.drain = ((e, t.words.word?) :: t.drain.1, t.drain.2) := by
  rw [drain]
  split
  · next hs => rw [hs] at h; cases h
  · next hs => rw [hs] at h; cases h; rfl

theorem drain_of_halt (h : s.step = .halt t) : s.drain = ([], t) :=
  drain_of_scan_none (scan_of_halt h)

theorem drain_of_silent (h : s.step = .silent t) : s.drain = t.drain := by
  rw [drain, scan_of_silent h, ← drain]

theorem drain_of_emit (h : s.step = .emit e t) :
    s.drain = ((e, t.words.word?) :: t.drain.1, t.drain.2) :=
  drain_of_scan_some (scan_of_emit h)

/-- What holds where the input ends, and passes from behind a step to in front of it, holds. -/
theorem step_induction {motive : Scanner → Prop}
    (halt : ∀ s t, s.step = .halt t → motive s)
    (silent : ∀ s t, s.step = .silent t → motive t → motive s)
    (emit : ∀ s e t, s.step = .emit e t → motive t → motive s) (s : Scanner) : motive s := by
  induction h : s.work using Nat.strongRecOn generalizing s with
  | ind n ih =>
    cases hs : s.step with
    | halt t => exact halt s t hs
    | silent t => exact silent s t hs (ih _ (h ▸ step_work_lt (by rw [hs]; rfl)) t rfl)
    | emit e t => exact emit s e t hs (ih _ (h ▸ step_work_lt (by rw [hs]; rfl)) t rfl)

/-- What comes out of the input that is there. -/
def emissions (s : Scanner) : List Emission := s.drain.1.map (·.1)

/-- The scanner behind all of it. -/
def behind (s : Scanner) : Scanner := s.drain.2

theorem emissions_of_halt (h : s.step = .halt t) : s.emissions = [] := by
  rw [emissions, drain_of_halt h]
  rfl

theorem emissions_of_silent (h : s.step = .silent t) : s.emissions = t.emissions := by
  rw [emissions, drain_of_silent h, emissions]

theorem emissions_of_emit (h : s.step = .emit e t) : s.emissions = e :: t.emissions := by
  rw [emissions, drain_of_emit h]
  rfl

theorem behind_of_halt (h : s.step = .halt t) : s.behind = t := by rw [behind, drain_of_halt h]

theorem behind_of_silent (h : s.step = .silent t) : s.behind = t.behind := by
  rw [behind, drain_of_silent h, behind]

theorem behind_of_emit (h : s.step = .emit e t) : s.behind = t.behind := by
  rw [behind, drain_of_emit h, behind]

theorem step_of_empty (hc : s.cursor = {}) (hb : s.state = .blank) : s.step = .halt s := by
  obtain ⟨cursor, state, saved, after, depth, words⟩ := s
  simp only at hc hb
  subst hc hb
  rfl

theorem marked_marked (s : Scanner) : s.marked.marked = s.marked := by
  unfold marked
  split <;> rfl

theorem marked_behind (s : Scanner) : s.behind.marked = s.behind := by
  induction s using step_induction with
  | halt s t hs => rw [behind_of_halt hs, step_halt hs, marked_marked]
  | silent s t hs ih => rw [behind_of_silent hs, ih]
  | emit s e t hs ih => rw [behind_of_emit hs, ih]

theorem step_behind (s : Scanner) : s.behind.step = .halt s.behind := by
  induction s using step_induction with
  | halt s t hs =>
    rw [behind_of_halt hs, step_halt hs, step, marked_marked, ← step, hs, step_halt hs]
  | silent s t hs ih => rw [behind_of_silent hs, ih]
  | emit s e t hs ih => rw [behind_of_emit hs, ih]

theorem drain_behind (s : Scanner) : s.behind.drain = ([], s.behind) :=
  drain_of_halt s.step_behind

theorem behind_of_scan_none (h : s.scan = (none, t)) : s.behind = t := by
  rw [behind, drain_of_scan_none h]

theorem emissions_of_scan_none (h : s.scan = (none, t)) : t.emissions = [] := by
  rw [← behind_of_scan_none h, emissions, drain_behind]
  rfl

theorem emissions_scan (s : Scanner) : s.emissions = s.scan.1.toList ++ s.scan.2.emissions := by
  cases hs : s.scan with
  | mk o t =>
    cases o with
    | none =>
      rw [emissions_of_scan_none hs, emissions, drain_of_scan_none hs]
      rfl
    | some e =>
      rw [emissions, drain_of_scan_some hs]
      rfl

theorem behind_scan (s : Scanner) : s.scan.2.behind = s.behind := by
  cases hs : s.scan with
  | mk o t =>
    cases o with
    | none =>
      rw [← behind_of_scan_none hs, behind, drain_behind]
    | some e => rw [behind, behind, drain_of_scan_some hs]

/-! ## More input -/

theorem Alike.drain (h : s.Alike t) : t.emissions = s.emissions ∧ s.behind.Alike t.behind := by
  induction s using step_induction generalizing t with
  | halt s u hs =>
    obtain ⟨v, ht, hv⟩ := Alike.step_halt h hs
    rw [emissions_of_halt hs, emissions_of_halt ht, behind_of_halt hs, behind_of_halt ht]
    exact ⟨rfl, hv⟩
  | silent s u hs ih =>
    obtain ⟨v, ht, hv⟩ := Lacks.step_silent h hs
    rw [emissions_of_silent hs, emissions_of_silent ht, behind_of_silent hs, behind_of_silent ht]
    exact ih hv
  | emit s e u hs ih =>
    obtain ⟨v, ht, hv⟩ := Lacks.step_emit h hs
    obtain ⟨he, hb⟩ := ih hv
    rw [emissions_of_emit hs, emissions_of_emit ht, behind_of_emit hs, behind_of_emit ht, he]
    exact ⟨rfl, hb⟩

/-- What more input brings comes behind all that has come out without it. -/
theorem Lacks.drain (h : Lacks input s t) :
    t.emissions = s.emissions ++ (s.behind.append input).emissions ∧
      (s.behind.append input).behind.Alike t.behind := by
  induction s using step_induction generalizing t with
  | halt s u hs =>
    -- Halting moves nothing but the start of the next token, and that does not tell.
    have hu : u.Alike s := by
      rw [step_halt hs]
      exact (alike_marked h.left).symm
    rw [emissions_of_halt hs, behind_of_halt hs]
    exact (hu.lacks h).alike_append.symm.drain
  | silent s u hs ih =>
    obtain ⟨v, ht, hv⟩ := h.step_silent hs
    rw [emissions_of_silent hs, emissions_of_silent ht, behind_of_silent hs, behind_of_silent ht]
    exact ih hv
  | emit s e u hs ih =>
    obtain ⟨v, ht, hv⟩ := h.step_emit hs
    obtain ⟨he, hb⟩ := ih hv
    rw [emissions_of_emit hs, emissions_of_emit ht, behind_of_emit hs, behind_of_emit ht, he]
    exact ⟨rfl, hb⟩

theorem emissions_append (h : s.cursor.Sound) (input : List UInt8) :
    (s.append input).emissions = s.emissions ++ (s.behind.append input).emissions :=
  (lacks_append h input).drain.1

theorem behind_append (h : s.cursor.Sound) (input : List UInt8) :
    (s.behind.append input).behind.Alike (s.append input).behind :=
  (lacks_append h input).drain.2

theorem sound_behind (h : s.cursor.Sound) : s.behind.cursor.Sound :=
  (Alike.refl h).drain.2.left

theorem sound_scan (h : s.cursor.Sound) : s.scan.2.cursor.Sound := by
  induction s using step_induction with
  | halt s u hs =>
    rw [scan_of_halt hs, step_halt hs]
    exact sound_marked h
  | silent s u hs ih =>
    obtain ⟨v, -, hv⟩ := Lacks.step_silent (Alike.refl h) hs
    rw [scan_of_silent hs]
    exact ih hv.left
  | emit s e u hs ih =>
    obtain ⟨v, -, hv⟩ := Lacks.step_emit (Alike.refl h) hs
    rw [scan_of_emit hs]
    exact hv.left

/-! ## What the first words make of it -/

end Scanner

/-- What an emission does to the first words. -/
def Emission.noted (w : FirstWords) : Emission → FirstWords
  | .token t => w.observe t
  | .malformed .. => w

/-- Each emission with the first word right after it. -/
def Emission.withWords : FirstWords → List Emission → List (Emission × Option String)
  | _, [] => []
  | w, e :: es => (e, (e.noted w).word?) :: withWords (e.noted w) es

theorem Emission.withWords_append (w : FirstWords) (es fs : List Emission) :
    withWords w (es ++ fs) = withWords w es ++ withWords (es.foldl noted w) fs := by
  induction es generalizing w with
  | nil => rfl
  | cons e es ih => simp only [List.cons_append, withWords, List.foldl_cons, ih]

/-- An error is nothing to the first words, whatever it is an error in. -/
theorem Emission.noted_eq (w : FirstWords) (e : Emission) : e.noted w = w.observe e.toToken := by
  cases e with
  | token t => rfl
  | malformed byte state => cases w <;> rfl

theorem FirstWords.isSome_word?_observe (w : FirstWords) (t : Token) :
    (w.observe t).word?.isSome = w.word?.isSome := by
  cases w with
  | untracked => rfl
  | tracked word outer =>
    unfold observe
    simp only
    repeat' split
    all_goals rfl

theorem Emission.isSome_word?_noted (w : FirstWords) (e : Emission) :
    (e.noted w).word?.isSome = w.word?.isSome := by
  rw [e.noted_eq, w.isSome_word?_observe]

theorem Emission.isSome_withWords {w : FirstWords} (hw : w.word?.isSome = true)
    (es : List Emission) : ∀ r ∈ withWords w es, r.2.isSome = true := by
  induction es generalizing w with
  | nil => nofun
  | cons e es ih =>
    have hn : (e.noted w).word?.isSome = true := (e.isSome_word?_noted w).trans hw
    intro r hr
    rcases List.mem_cons.1 hr with rfl | hr
    · exact hn
    · exact ih hn r hr

namespace Scanner

theorem words_resumed (s : Scanner) : s.resumed.words = s.words := by
  unfold resumed
  split <;> rfl

theorem words_append (s : Scanner) (input : List UInt8) : (s.append input).words = s.words := by
  rw [append]

def Step.Words (w : FirstWords) : Step → Prop
  | .halt s => s.words = w
  | .silent s => s.words = w
  | .emit e s => s.words = e.noted w

theorem finish_words (kind : Kind) (s : Scanner) : (s.finish kind).Words s.words := by
  unfold finish
  split <;> rfl

theorem step_words (s : Scanner) : s.step.Words s.words := by
  rw [← words_marked s, step]
  generalize s.marked = s
  unfold look
  simp only
  split
  case h_6 => exact words_resumed _
  case h_7 => exact finish_words _ _
  case h_8 => exact finish_words _ _
  case h_9 => exact words_resumed _
  all_goals rfl

theorem words_scan (s : Scanner) :
    s.scan.2.words = s.scan.1.toList.foldl Emission.noted s.words := by
  induction s using step_induction with
  | halt s t hs =>
    have hw := s.step_words
    rw [hs] at hw
    rw [scan_of_halt hs]
    exact hw
  | silent s t hs ih =>
    have hw : t.words = s.words := by
      have hw := s.step_words
      rwa [hs] at hw
    rw [scan_of_silent hs, ih, hw]
  | emit s e t hs ih =>
    have hw := s.step_words
    rw [hs] at hw
    rw [scan_of_emit hs]
    exact hw

theorem drain_words (s : Scanner) :
    s.drain.1 = Emission.withWords s.words s.emissions ∧
      s.behind.words = s.emissions.foldl Emission.noted s.words := by
  induction s using step_induction with
  | halt s t hs =>
    have hw := s.step_words
    rw [hs] at hw
    rw [emissions_of_halt hs, behind_of_halt hs, drain_of_halt hs]
    exact ⟨rfl, hw⟩
  | silent s t hs ih =>
    have hw := s.step_words
    rw [hs] at hw
    rw [emissions_of_silent hs, behind_of_silent hs, drain_of_silent hs]
    exact hw ▸ ih
  | emit s e t hs ih =>
    have hw : t.words = e.noted s.words := by
      have hw := s.step_words
      rwa [hs] at hw
    rw [emissions_of_emit hs, behind_of_emit hs, drain_of_emit hs, Emission.withWords,
      List.foldl_cons, ← hw]
    exact ⟨by rw [ih.1], ih.2⟩

theorem isSome_word?_behind (s : Scanner) :
    s.behind.words.word?.isSome = s.words.word?.isSome := by
  rw [s.drain_words.2]
  generalize s.words = w
  induction s.emissions generalizing w with
  | nil => rfl
  | cons e es ih => rw [List.foldl_cons, ih, e.isSome_word?_noted]

theorem isSome_word?_behind_append (s : Scanner) (input : List UInt8) :
    (s.append input).behind.words.word?.isSome = s.words.word?.isSome := by
  rw [isSome_word?_behind, words_append]

end Scanner

end ShellTokens
