import ShellTokens.Proofs.FirstWords.Log

/-!
# Copies and shared words

However copies and shared words are passed on, and whoever changes them in between, the word of a
holder is what comes of its own history in the log.
-/

namespace ShellTokens.FirstWords.Pool

variable {log : Log} {a i : Nat} {p : Pool}

/-! ## The pool behind the steps -/

def run (log : Log) : Pool := log.foldl (fun p e => p.perform e.1 e.2) {}

def replay (hist : List Change) : FirstWords := hist.foldl change .untracked

theorem replay_concat (hist : List Change) (c : Change) :
    replay (hist ++ [c]) = (replay hist).change c := by
  rw [replay, List.foldl_append]
  rfl

def held? (p : Pool) (i : Nat) : Option FirstWords :=
  p.holders[i]?.map fun cell => p.cells.getD cell .untracked

theorem words_getElem? (p : Pool) (i : Nat) : p.words[i]? = (p.held? i).map word? := by
  rw [words, held?, List.getElem?_map, Option.map_map]
  rfl

section perform

variable {cell : Nat}

theorem perform_change (h : p.holders[a]? = some cell) (c : Change) :
    p.perform a (.change c) = { p with cells := p.cells.modify cell (·.change c) } := by
  rw [perform, h]

theorem perform_fork (h : p.holders[a]? = some cell) :
    p.perform a .fork =
      ⟨p.cells ++ [p.cells.getD cell .untracked], p.holders ++ [p.cells.length]⟩ := by
  rw [perform, h]

theorem perform_share (h : p.holders[a]? = some cell) :
    p.perform a .share = { p with holders := p.holders ++ [cell] } := by
  rw [perform, h]

theorem held?_fork (h : p.holders[a]? = some cell) :
    (p.perform a .fork).held? p.holders.length = p.held? a := by
  rw [perform_fork h, held?, held?, h, List.getElem?_concat_length, Option.map_some,
    Option.map_some, List.getD_eq_getElem?_getD, List.getElem?_concat_length, Option.getD_some]

theorem held?_fork_of_lt (h : p.holders[a]? = some cell)
    (hin : ∀ cell ∈ p.holders, cell < p.cells.length) (hi : i < p.holders.length) :
    (p.perform a .fork).held? i = p.held? i := by
  have hlt := hin p.holders[i] (List.getElem_mem hi)
  rw [perform_fork h, held?, held?, List.getElem?_append_left hi, List.getElem?_eq_getElem hi]
  simp only [Option.map_some, List.getD_eq_getElem?_getD, List.getElem?_append_left hlt]

end perform

/-- The pool is as the log tells. -/
structure Fits (log : Log) (p : Pool) : Prop where
  count : p.holders.length = holderCount log
  inside : ∀ cell ∈ p.holders, cell < p.cells.length
  same : ∀ i < holderCount log, ∀ j < holderCount log,
    SameWords log i j ↔ p.holders[i]? = p.holders[j]?
  told : ∀ i < holderCount log, ∃ hist, (∀ other, History log i other ↔ other = hist) ∧
    p.held? i = some (replay hist)

namespace Fits

theorem exists_cell (h : Fits log p) (hi : i < holderCount log) :
    ∃ cell, p.holders[i]? = some cell ∧ cell < p.cells.length := by
  rw [← h.count] at hi
  exact ⟨p.holders[i], List.getElem?_eq_getElem hi, h.inside _ (List.getElem_mem hi)⟩

theorem start : Fits [] {} where
  count := rfl
  inside := by decide
  same i hi j hj := by
    obtain rfl : i = 0 := Nat.lt_one_iff.1 hi
    obtain rfl : j = 0 := Nat.lt_one_iff.1 hj
    exact iff_of_true (.refl [] 0) rfl
  told i hi := by
    obtain rfl : i = 0 := Nat.lt_one_iff.1 hi
    refine ⟨[], fun other => ⟨fun h => ?_, ?_⟩, rfl⟩
    · cases h with
      | first h => rfl
      | fork hd h ho => exact absurd (List.prefix_nil.1 hd) (by simp)
    · rintro rfl
      exact .first (.refl [] 0)

theorem change (h : Fits log p) (ha : a < holderCount log) (c : Change) :
    Fits (log ++ [(a, .change c)]) (p.perform a (.change c)) := by
  obtain ⟨cell, hcell, hlt⟩ := h.exists_cell ha
  have hn := holderCount_change log a c
  rw [perform_change hcell]
  refine ⟨h.count.trans hn.symm, ?_, ?_, fun i hi => ?_⟩
  · simpa using h.inside
  · rw [hn, sameWords_concat (by simp)]
    exact h.same
  · rw [hn] at hi
    obtain ⟨old, ho, hheld⟩ := h.told i hi
    obtain ⟨cell', hcell', -⟩ := h.exists_cell hi
    have hsame := h.same i hi a ha
    rw [hcell, hcell', Option.some.injEq] at hsame
    rw [held?, hcell', Option.map_some, Option.some.injEq] at hheld
    refine ⟨old ++ changesBy (SameWords log i) [(a, .change c)], fun other => ?_, ?_⟩
    · rw [history_change]
      simp only [ho, exists_eq_left]
    · -- The cell that is changed is the one of the holders of the same words.
      rw [held?, hcell', Option.map_some, Option.some.injEq, List.getD_eq_getElem?_getD,
        List.getElem?_modify]
      by_cases hs : SameWords log i a
      · obtain rfl := hsame.1 hs
        rw [changesBy_singleton hs, Step.change?, Option.toList_some, replay_concat, ← hheld]
        simp [hlt]
      · rw [changesBy_eq_nil (by simp [hs]), List.append_nil, ← hheld]
        simp [Ne.symm (mt hsame.2 hs)]

/-- A copy gets words of its own, and no other holder takes notice of it. -/
theorem fork (h : Fits log p) (hp : Proper log) (ha : a < holderCount log) :
    Fits (log ++ [(a, .fork)]) (p.perform a .fork) := by
  obtain ⟨cell, hcell, hlt⟩ := h.exists_cell ha
  have hn : holderCount (log ++ [(a, .fork)]) = holderCount log + 1 := holderCount_add log rfl
  have hold {i : Nat} (hi : i < holderCount log) :
      (p.holders ++ [p.cells.length])[i]? = p.holders[i]? :=
    List.getElem?_append_left (h.count ▸ hi)
  have hnew : (p.holders ++ [p.cells.length])[holderCount log]? = some p.cells.length := by
    rw [← h.count, List.getElem?_concat_length]
  have hapart {i : Nat} (hi : i < holderCount log) : p.holders[i]? ≠ some p.cells.length := by
    obtain ⟨cell', hcell', hlt'⟩ := h.exists_cell hi
    rw [hcell', ne_eq, Option.some.injEq]
    exact Nat.ne_of_lt hlt'
  refine ⟨?_, ?_, fun i hi j hj => ?_, fun i hi => ?_⟩
  · rw [perform_fork hcell, List.length_append, h.count, hn, List.length_singleton]
  · rw [perform_fork hcell]
    intro cell' hmem
    rw [List.length_append, List.length_singleton]
    rcases List.mem_append.1 hmem with hmem | hmem
    · exact Nat.lt_succ_of_lt (h.inside cell' hmem)
    · exact List.mem_singleton.1 hmem ▸ Nat.lt_succ_self _
  · -- The copy is the only holder of its cell, and nobody has let it in on words.
    rw [hn] at hi hj
    rw [sameWords_concat (by simp), perform_fork hcell]
    rcases Nat.lt_succ_iff_lt_or_eq.1 hi with hi | rfl <;>
      rcases Nat.lt_succ_iff_lt_or_eq.1 hj with hj | rfl
    · rw [hold hi, hold hj]
      exact h.same i hi j hj
    · rw [hold hi, hnew]
      exact iff_of_false (hp.not_sameWords hi) (hapart hi)
    · rw [hold hj, hnew]
      exact iff_of_false (fun hs => hp.not_sameWords hj hs.symm) (hapart hj).symm
    · exact iff_of_true (.refl log _) rfl
  · rw [hn] at hi
    rcases Nat.lt_succ_iff_lt_or_eq.1 hi with hi | rfl
    · obtain ⟨old, ho, hheld⟩ := h.told i hi
      refine ⟨old, fun other => (history_fork hp hi).trans (ho other), ?_⟩
      rw [held?_fork_of_lt hcell h.inside (h.count ▸ hi), hheld]
    · obtain ⟨old, ho, hheld⟩ := h.told a ha
      refine ⟨old, fun other => (history_copy hp).trans (ho other), ?_⟩
      rw [← h.count, held?_fork hcell, hheld]

theorem share (h : Fits log p) (hp : Proper log) (ha : a < holderCount log) :
    Fits (log ++ [(a, .share)]) (p.perform a .share) := by
  obtain ⟨cell, hcell, hlt⟩ := h.exists_cell ha
  have hn : holderCount (log ++ [(a, .share)]) = holderCount log + 1 := holderCount_add log rfl
  have hsource {i : Nat} (hi : i < holderCount log + 1) :
      source log a i < holderCount log ∧
        (p.holders ++ [cell])[i]? = p.holders[source log a i]? := by
    rcases Nat.lt_succ_iff_lt_or_eq.1 hi with hi | rfl
    · rw [source_of_lt hi]
      exact ⟨hi, List.getElem?_append_left (h.count ▸ hi)⟩
    · rw [source_new, hcell, ← h.count, List.getElem?_concat_length]
      exact ⟨h.count ▸ ha, rfl⟩
  rw [perform_share hcell]
  refine ⟨?_, ?_, fun i hi j hj => ?_, fun i hi => ?_⟩
  · rw [List.length_append, h.count, hn, List.length_singleton]
  · intro cell' hmem
    rcases List.mem_append.1 hmem with hmem | hmem
    · exact h.inside cell' hmem
    · exact List.mem_singleton.1 hmem ▸ hlt
  · rw [hn] at hi hj
    obtain ⟨hi, hci⟩ := hsource hi
    obtain ⟨hj, hcj⟩ := hsource hj
    rw [sameWords_share hp ha, hci, hcj]
    exact h.same _ hi _ hj
  · rw [hn] at hi
    obtain ⟨hi, hci⟩ := hsource hi
    obtain ⟨old, ho, hheld⟩ := h.told _ hi
    refine ⟨old, fun other => (history_share hp ha).trans (ho other), ?_⟩
    rw [held?, hci]
    exact hheld

end Fits

theorem fits_run (h : Proper log) : Fits log (run log) := by
  induction log using List.reverseRecOn with
  | nil => exact Fits.start
  | append_singleton log e ih =>
    obtain ⟨hp, ha⟩ := h.of_concat
    have hrun : run (log ++ [e]) = (run log).perform e.1 e.2 := by
      rw [run, List.foldl_append]
      rfl
    rw [hrun]
    obtain ⟨a, step⟩ := e
    cases step with
    | change c => exact (ih hp).change ha c
    | fork => exact (ih hp).fork hp ha
    | share => exact (ih hp).share hp ha

/-- Each holder that is there has a history in the log, and only one. Its word is the one that comes
of that history alone, whatever has been done with all other words. -/
theorem words_run (h : Proper log) :
    (run log).words.length = holderCount log ∧
      ∀ i < holderCount log, ∃ hist, History log i hist ∧
        (∀ other, History log i other → other = hist) ∧
        (run log).words[i]? = some (replay hist).word? := by
  have hf := fits_run h
  refine ⟨?_, fun i hi => ?_⟩
  · rw [words, List.length_map, hf.count]
  · obtain ⟨hist, hh, hheld⟩ := hf.told i hi
    refine ⟨hist, (hh hist).2 rfl, fun other => (hh other).1, ?_⟩
    rw [words_getElem?, hheld, Option.map_some]

theorem words_of_copies :
    let log : Log := [(0, .change .activate), (0, .change (.observe ⟨.symbol, "echo"⟩)), (0, .fork),
      (0, .share), (1, .change (.observe ⟨.openBrace, "\x7b"⟩)),
      (1, .change (.observe ⟨.symbol, "inner"⟩)), (2, .change (.observe ⟨.openParen, "("⟩)),
      (1, .share), (2, .fork), (3, .change (.observe ⟨.closeBrace, "\x7d"⟩)),
      (4, .change (.observe ⟨.symbol, "ls"⟩))]
    Proper log ∧ (run log).words = [some "", some "echo", some "", some "echo", some "ls"] ∧
      (∃ hist, History log 3 hist ∧ (replay hist).word? = some "echo") ∧
      ∃ hist, History log 4 hist ∧ (replay hist).word? = some "ls" := by
  -- The second holder is a copy of the first and lets a fourth one in on its words, the third has
  -- those of the first, and the fifth is a copy of the third.
  intro log
  have hp : Proper log := by decide +kernel
  have hw : (run log).words = [some "", some "echo", some "", some "echo", some "ls"] := by
    decide +kernel
  obtain ⟨-, hall⟩ := words_run hp
  obtain ⟨fourth, hfourth, -, h₃⟩ := hall 3 (by decide)
  obtain ⟨fifth, hfifth, -, h₄⟩ := hall 4 (by decide)
  rw [hw] at h₃ h₄
  exact ⟨hp, hw, ⟨fourth, hfourth, (Option.some.inj h₃).symm⟩, fifth, hfifth,
    (Option.some.inj h₄).symm⟩

end ShellTokens.FirstWords.Pool
