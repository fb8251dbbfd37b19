import ShellTokens.Proofs.Scanner.Tiling

/-!
# What a scanner has come from

Whatever is done with a scanner, it knows the shape of what it has read for the token under way, and
it remembers the kind of the last token that it has not been told to forget.
-/

namespace ShellTokens.Scanner

open Rune (Row)

variable {s t : Scanner} {rs : List Rune} {es : List Emission}

/-! ## The token under way goes on -/

theorem Has.append (h : s.Has rs) (input : List UInt8) : (s.append input).Has rs := by
  have hs := h.sound
  by_cases hb : s.state = .blank
  · have hh := h.holds
    rw [hb] at hh
    rw [hh.eq_nil]
    exact has_of_blank (hs.append input) hb (h.holds.saved_eq (by rw [hb]; nofun))
  · have hm : s.marked = s := if_neg hb
    have hr := h.hasRead
    rw [hm] at hr
    exact has_of_row (hs.append input) (hr.append input).row h.holds

theorem Has.track (h : s.Has rs) (words : FirstWords) : Has rs { s with words } := by
  refine ⟨h.sound, ?_, h.holds⟩
  have hc : ({ s with words } : Scanner).marked.cursor = s.marked.cursor := by
    unfold marked
    split <;> rfl
  rw [hc]
  exact h.row

theorem Has.marked (h : s.Has rs) : s.marked.Has rs := by
  refine ⟨sound_marked h.sound, ?_, ?_⟩
  · rw [marked_marked]
    exact h.row
  · rw [state_marked, saved_marked]
    exact h.holds

theorem Has.behind (h : s.Has rs) : ∃ rs, s.behind.Has rs := by
  induction s using step_induction generalizing rs with
  | halt s t hs =>
    rw [behind_of_halt hs, step_halt hs]
    exact ⟨rs, h.marked⟩
  | silent s t hs ih =>
    obtain ⟨⟨rs, ht⟩, -⟩ := h.tiles.remembers (t := t) (by rw [hs]; rfl)
    rw [behind_of_silent hs]
    exact ih ht
  | emit s e t hs ih =>
    obtain ⟨⟨rs, ht⟩, -⟩ := h.tiles.remembers (t := t) (by rw [hs]; rfl)
    rw [behind_of_emit hs]
    exact ih ht

theorem Has.scan (h : s.Has rs) : (∃ rs, s.scan.2.Has rs) ∧
    s.scan.2.after = ((s.scan.1.bind Emission.token?).map Token.kind).or s.after ∧
    ∀ t ∈ s.scan.1.bind Emission.token?, t.isWritable = true := by
  induction s using step_induction generalizing rs with
  | halt s t hs =>
    rw [scan_of_halt hs, step_halt hs]
    exact ⟨⟨rs, h.marked⟩, after_marked s, nofun⟩
  | silent s t hs ih =>
    have htiles := h.tiles
    rw [hs] at htiles
    obtain ⟨⟨rs, ht⟩, ha, -⟩ := htiles.remembers rfl
    have ha' : t.after = s.after := ha
    rw [scan_of_silent hs, ← ha']
    exact ih ht
  | emit s e t hs ih =>
    have htiles := h.tiles
    rw [hs] at htiles
    rw [scan_of_emit hs]
    exact htiles.remembers rfl

/-! ## All that is done -/

/-- The scanner has come about from a fresh one, and `es` has come out since it last forgot
everything. A copy of it has come about in the same way. -/
inductive Reached : Scanner → List Emission → Prop
  | fresh (interactive : Bool) : Reached (fresh interactive) []
  | append {s : Scanner} {es : List Emission} (h : Reached s es) (chunk : List UInt8) :
      Reached (s.append chunk) es
  | scan {s : Scanner} {es : List Emission} (h : Reached s es) :
      Reached s.scan.2 (es ++ s.scan.1.toList)
  | discard {s : Scanner} {es : List Emission} (h : Reached s es) : Reached s.discard []
  /-- Whoever shares the first words changes them. -/
  | track {s : Scanner} {es : List Emission} (h : Reached s es) (words : FirstWords) :
      Reached { s with words } es

/-- The kind of the last token in what has come out. -/
def lastKind (es : List Emission) : Option Kind :=
  ((es.map Emission.toToken).filter (·.kind ≠ .error)).getLast?.map Token.kind

theorem lastKind_append (es : List Emission) {o : Option Emission}
    (hw : ∀ t ∈ o.bind Emission.token?, t.isWritable = true) :
    lastKind (es ++ o.toList) = ((o.bind Emission.token?).map Token.kind).or (lastKind es) := by
  unfold lastKind
  rw [List.map_append, List.filter_append]
  cases o with
  | none =>
    rw [Option.toList_none, List.map_nil, List.filter_nil, List.append_nil]
    rfl
  | some e =>
    rw [Option.toList_some, List.map_singleton]
    cases e with
    | malformed byte state =>
      rw [List.filter_cons_of_neg (by simp [Emission.toToken, Token.error]), List.filter_nil,
        List.append_nil]
      rfl
    | token t =>
      have hk := Token.kind_ne_error (hw t rfl)
      rw [Emission.toToken, List.filter_cons_of_pos (by simpa using hk), List.filter_nil,
        List.getLast?_concat]
      rfl

theorem Reached.remembers (h : Reached s es) : (∃ rs, s.Has rs) ∧ s.after = lastKind es := by
  induction h with
  | fresh interactive =>
    exact ⟨⟨[], has_of_blank (sound_fresh interactive) rfl rfl⟩, rfl⟩
  | append h chunk ih =>
    obtain ⟨⟨rs, hh⟩, ha⟩ := ih
    exact ⟨⟨rs, hh.append chunk⟩, ha⟩
  | scan h ih =>
    obtain ⟨⟨rs, hh⟩, ha⟩ := ih
    obtain ⟨hs, hl, hw⟩ := hh.scan
    exact ⟨hs, hl.trans (by rw [lastKind_append _ hw, ha])⟩
  | discard h ih => exact ⟨⟨[], has_of_blank (sound_fresh false) rfl rfl⟩, rfl⟩
  | track h words ih =>
    obtain ⟨⟨rs, hh⟩, ha⟩ := ih
    exact ⟨⟨rs, hh.track words⟩, ha⟩

theorem Reached.behind (h : Reached s es) : Reached s.behind (es ++ s.emissions) := by
  induction hw : s.work using Nat.strongRecOn generalizing s es with
  | ind work ih =>
    have hscan := h.scan
    rw [← behind_scan, emissions_scan, ← List.append_assoc]
    rcases hs : s.scan with ⟨_ | e, t⟩
    · rw [hs] at hscan
      have ht : t.behind = t := by rw [← behind_of_scan_none hs, Scanner.behind, drain_behind]
      rw [ht, emissions_of_scan_none hs, List.append_nil]
      exact hscan
    · rw [hs] at hscan
      exact ih _ (hw ▸ scan_work_lt hs) hscan rfl

end ShellTokens.Scanner
