import ShellTokens.Proofs.Scanner.Drain

/-!
# Input in chunks

It does not matter where the input is cut, and when the scanner goes on in between. In the end the
same has come out, and the scanner is the same to all that look at it.
-/

namespace ShellTokens.Scanner

/-- What is done to a scanner while its input comes in. -/
inductive Action where
  | append (chunk : List UInt8)
  | scan

def Action.input : List Action → List UInt8
  | [] => []
  | .append chunk :: later => chunk ++ input later
  | .scan :: later => input later

/-- Does one thing after the other. Each emission comes with the first word right after it. -/
def handle : List Action → Scanner → List (Emission × Option String) × Scanner
  | [], s => ([], s)
  | .append chunk :: later, s => handle later (s.append chunk)
  | .scan :: later, s =>
    let r := s.scan
    let rest := handle later r.2
    (r.1.toList.map (·, r.2.words.word?) ++ rest.1, rest.2)

variable {s t : Scanner}

theorem handle_append (actions more : List Action) (s : Scanner) :
    handle (actions ++ more) s =
      ((handle actions s).1 ++ (handle more (handle actions s).2).1,
        (handle more (handle actions s).2).2) := by
  induction actions generalizing s with
  | nil => rfl
  | cons action later ih =>
    cases action with
    | append chunk => exact ih (s.append chunk)
    | scan => simp only [List.cons_append, handle, ih, List.append_assoc]

theorem emissions_scan_append (hs : s.cursor.Sound) (input : List UInt8) :
    (s.append input).emissions = s.scan.1.toList ++ (s.scan.2.append input).emissions := by
  rw [emissions_append hs, emissions_append (sound_scan hs), behind_scan, emissions_scan s,
    List.append_assoc]

theorem behind_scan_append (hs : s.cursor.Sound) (input : List UInt8) :
    (s.scan.2.append input).behind.Alike (s.append input).behind := by
  have h := behind_append (sound_scan hs) input
  rw [behind_scan] at h
  exact h.symm.trans (behind_append hs input)

theorem append_append (hs : s.cursor.Sound) (first later : List UInt8) :
    ((s.append first).append later).Alike (s.append (first ++ later)) :=
  ((lacks_append hs first).append later).alike_append

theorem handle_drain (actions : List Action) (hs : s.cursor.Sound) :
    (s.append (Action.input actions)).emissions =
        (handle actions s).1.map (·.1) ++ (handle actions s).2.emissions ∧
      (handle actions s).2.behind.Alike (s.append (Action.input actions)).behind := by
  induction actions generalizing s with
  | nil =>
    have ha : s.Alike (s.append []) := lacks_append hs []
    exact ha.drain
  | cons action later ih =>
    cases action with
    | append chunk =>
      obtain ⟨he, hb⟩ := (append_append hs chunk (Action.input later)).drain
      obtain ⟨he', hb'⟩ := ih (sound_append hs chunk)
      exact ⟨he.trans he', hb'.trans hb⟩
    | scan =>
      obtain ⟨he, hb⟩ := ih (sound_scan hs)
      refine ⟨?_, hb.trans (behind_scan_append hs _)⟩
      simp only [Action.input, handle]
      rw [emissions_scan_append hs, he, List.map_append, List.append_assoc]
      simp [Function.comp_def]

theorem handle_words (actions : List Action) (s : Scanner) :
    (handle actions s).1 = Emission.withWords s.words ((handle actions s).1.map (·.1)) ∧
      (handle actions s).2.words =
        ((handle actions s).1.map (·.1)).foldl Emission.noted s.words := by
  induction actions generalizing s with
  | nil => exact ⟨rfl, rfl⟩
  | cons action later ih =>
    cases action with
    | append chunk => exact ih (s.append chunk)
    | scan =>
      obtain ⟨he, hw⟩ := ih s.scan.2
      have hs := s.words_scan
      simp only [handle, List.map_append, List.map_map, List.foldl_append]
      cases hsc : s.scan.1 with
      | none =>
        rw [hsc] at hs
        rw [show s.scan.2.words = s.words from hs] at he hw
        exact ⟨he, hw⟩
      | some e =>
        rw [hsc] at hs
        rw [show s.scan.2.words = e.noted s.words from hs] at he hw ⊢
        exact ⟨congrArg (List.cons _) he, hw⟩

theorem emissions_append_append (hs : s.cursor.Sound) (first later : List UInt8) :
    (s.append (first ++ later)).emissions =
        (s.append first).emissions ++ ((s.append first).behind.append later).emissions ∧
      ((s.append first).behind.append later).behind.Alike (s.append (first ++ later)).behind := by
  obtain ⟨he, hb⟩ := (append_append hs first later).drain
  have ha := behind_append (sound_append hs first) later
  exact ⟨he.trans (emissions_append (sound_append hs first) later), ha.trans hb⟩

theorem drain_append_append (hs : s.cursor.Sound) (first later : List UInt8) :
    (s.append (first ++ later)).drain.1 =
      (s.append first).drain.1 ++ ((s.append first).behind.append later).drain.1 := by
  have he := (emissions_append_append hs first later).1
  have hw : ((s.append first).behind.append later).words =
      (s.append first).emissions.foldl Emission.noted s.words := by
    rw [← words_append s first, ← (s.append first).drain_words.2, words_append]
  rw [(s.append (first ++ later)).drain_words.1, (s.append first).drain_words.1,
    ((s.append first).behind.append later).drain_words.1, he, Emission.withWords_append, hw,
    words_append, words_append]

theorem sound_fresh (interactive : Bool) : (fresh interactive).cursor.Sound :=
  ⟨Nat.le_refl _, Nat.le_refl _⟩

theorem Alike.twins_behind (h : s.behind.Alike t.behind) : Twins [] s.behind t.behind := by
  have hm := h.marked
  rwa [marked_behind, marked_behind] at hm

theorem Twins.isSettled (h : Twins [] s t) : s.isSettled = t.isSettled := by
  have hp : t.cursor.pending = s.cursor.pending := by simpa using h.cursor.pending
  rw [Scanner.isSettled, Scanner.isSettled, continuesLine, continuesLine,
    h.cursor.left.isDrained_eq, h.cursor.right.isDrained_eq, hp, h.state, h.saved, h.after, h.depth]

/-- However the input is cut, and whenever the scanner goes on in between: the same emissions come
out of it with the same first words, and the scanner ends up the same. -/
theorem handle_then_drain (interactive : Bool) (actions : List Action) :
    let early := handle actions (fresh interactive)
    let cut := early.2.drain
    let whole := ((fresh interactive).append (Action.input actions)).drain
    early.1 ++ cut.1 = whole.1 ∧
      cut.2.state = whole.2.state ∧ cut.2.saved = whole.2.saved ∧ cut.2.after = whole.2.after ∧
      cut.2.depth = whole.2.depth ∧ cut.2.words = whole.2.words ∧
      cut.2.cursor.pending = whole.2.cursor.pending ∧ cut.2.isSettled = whole.2.isSettled := by
  intro early cut whole
  obtain ⟨he, hb⟩ := handle_drain actions (sound_fresh interactive)
  obtain ⟨hee, hew⟩ := handle_words actions (fresh interactive)
  obtain ⟨hce, hcw⟩ := early.2.drain_words
  obtain ⟨hwe, hww⟩ := ((fresh interactive).append (Action.input actions)).drain_words
  have ht := hb.twins_behind
  refine ⟨?_, ht.state.symm, ht.saved.symm, ht.after.symm, ht.depth.symm, ?_, ?_, ht.isSettled⟩
  · calc early.1 ++ cut.1
        = Emission.withWords (fresh interactive).words
            (early.1.map (·.1) ++ early.2.emissions) := by
          rw [Emission.withWords_append, ← hew, ← hee, ← hce]
      _ = whole.1 := by rw [← he, hwe]; rfl
  · calc cut.2.words
        = (early.1.map (·.1) ++ early.2.emissions).foldl Emission.noted
            (fresh interactive).words := by rw [List.foldl_append, ← hew, ← hcw]; rfl
      _ = whole.2.words := by rw [← he]; exact hww.symm
  · have hp := ht.cursor.pending
    rw [List.append_nil] at hp
    exact hp.symm

end ShellTokens.Scanner
