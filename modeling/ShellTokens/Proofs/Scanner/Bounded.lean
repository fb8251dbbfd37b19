import ShellTokens.Proofs.Scanner.Represented

/-!
# How long scanning goes on

A scan is over after a number of steps that the unread bytes bound. All that comes out of the input
is paid for in bytes: each emission takes one of the unread bytes, or ends a token that has at least
one byte already.
-/

namespace ShellTokens

theorem State.Demands.ne_nil {s : State} {bs : List UInt8} (h : s.Demands bs)
    (hs : s ≠ .blank) : bs ≠ [] := by
  rintro rfl
  cases s with
  | blank => exact hs rfl
  | symbol => exact h rfl
  | afterPipe => rcases h with h | h <;> cases h
  | comment => cases List.prefix_nil.1 h
  | singleQuoted => cases List.prefix_nil.1 h
  | doubleQuoted => cases List.prefix_nil.1 h
  | bangString => cases List.prefix_nil.1 h
  | afterBackslash => cases List.suffix_nil.1 h
  | _ => cases h

namespace Scanner

variable {s t : Scanner} {rs : List Rune} {kind : Kind} {n : Nat}

/-! ## In so many steps -/

/-- Scans on, but takes no more than so many steps. -/
def scanWithin : Nat → Scanner → Option (Option Emission × Scanner)
  | 0, _ => none
  | n + 1, s =>
    match s.step with
    | .halt t => some (none, t)
    | .silent t => scanWithin n t
    | .emit e t => some (some e, t)

/-- Scans to the end of the input, but makes no more than so many scans. -/
def drainWithin : Nat → Scanner → Option (List (Emission × Option String) × Scanner)
  | 0, _ => none
  | n + 1, s =>
    match s.scan with
    | (none, t) => some ([], t)
    | (some e, t) => (drainWithin n t).map fun rest => ((e, t.words.word?) :: rest.1, rest.2)

theorem scanWithin_eq (h : s.work < n) : scanWithin n s = some s.scan := by
  induction n generalizing s with
  | zero => omega
  | succ n ih =>
    rw [scanWithin]
    cases hs : s.step with
    | halt t => rw [scan_of_halt hs]
    | silent t =>
      have hw : t.work < s.work := step_work_lt (by rw [hs]; rfl)
      rw [scan_of_silent hs]
      exact ih (by omega)
    | emit e t => rw [scan_of_emit hs]

theorem drainWithin_eq (h : s.emissions.length < n) : drainWithin n s = some s.drain := by
  induction n generalizing s with
  | zero => omega
  | succ n ih =>
    rw [emissions_scan] at h
    rw [drainWithin]
    rcases hs : s.scan with ⟨_ | e, t⟩
    · rw [drain_of_scan_none hs]
    · simp only [hs, Option.toList_some, List.length_append, List.length_singleton] at h
      simp only [drain_of_scan_some hs, ih (s := t) (by omega), Option.map_some]

/-! ## What emissions are paid with -/

/-- The unread bytes, and one of those that a token under way has. -/
def stock (s : Scanner) : Nat := s.cursor.unread.length + if s.state = .blank then 0 else 1

theorem stock_of_blank (h : s.state = .blank) : s.stock = s.cursor.unread.length := by
  rw [stock, if_pos h, Nat.add_zero]

theorem stock_of_ne_blank (h : s.state ≠ .blank) : s.stock = s.cursor.unread.length + 1 := by
  rw [stock, if_neg h]

theorem unread_le_stock (s : Scanner) : s.cursor.unread.length ≤ s.stock := by
  rw [stock]
  omega

theorem stock_le (s : Scanner) : s.stock ≤ s.cursor.unread.length + 1 := by
  rw [stock]
  split <;> omega

theorem stock_marked (s : Scanner) : s.marked.stock = s.stock := by
  rw [stock, stock, unread_marked, state_marked]

def Step.Pays (stock : Nat) : Step → Prop
  | .halt _ => True
  | .silent t => t.stock ≤ stock
  | .emit _ t => t.stock < stock

theorem pays_finish {stock : Nat} (h : s.cursor.unread.length < stock) :
    (s.finish kind).Pays stock := by
  have hrest (u : Scanner) (hu : u.cursor = s.cursor.mark) (hb : u.state = .blank) :
      u.stock < stock := by
    rw [stock_of_blank hb, hu, Cursor.unread_mark]
    exact h
  unfold finish
  split
  · exact Nat.le_of_lt (hrest _ rfl rfl)
  · exact hrest _ rfl rfl

theorem stock_le_of_read (hp : s.cursor.peek ≠ .exhausted) (ht : t.cursor = s.cursor.next.2) :
    t.stock ≤ s.stock := by
  have hn := Cursor.length_unread_next_lt hp
  have hs := s.unread_le_stock
  have hle := t.stock_le
  rw [ht] at hle
  omega

theorem stock_lt_of_reject (hp : s.cursor.peek ≠ .exhausted) (ht : t.cursor = s.cursor.next.2)
    (hst : t.state = s.state) : t.resumed.stock < s.stock := by
  have hn := Cursor.length_unread_next_lt hp
  rw [← ht] at hn
  by_cases hb : s.state = .blank
  · have hr : t.resumed = t := if_neg (by rw [hst, hb]; decide)
    rw [hr, stock_of_blank (hst.trans hb), stock_of_blank hb]
    exact hn
  · have hle := t.resumed.stock_le
    rw [cursor_resumed] at hle
    rw [stock_of_ne_blank hb]
    omega

theorem pays_look (s : Scanner) : s.look.Pays s.stock := by
  have hs := s.unread_le_stock
  have hrank (hr : 0 < s.state.rank) : s.state ≠ .blank := by
    intro hb
    rw [hb] at hr
    exact absurd hr (by decide)
  unfold look
  generalize hm : s.state.respond _ _ = m
  rcases eq_or_ne m .halt with rfl | hhalt
  · trivial
  have hp : s.cursor.peek ≠ .exhausted := fun he => hhalt (hm ▸ State.respond_eq_halt_iff.2 he)
  have hn := Cursor.length_unread_next_lt hp
  cases m with
  | halt => exact absurd rfl hhalt
  | keep => exact stock_le_of_read hp rfl
  | enter next => exact stock_le_of_read hp rfl
  | escape back => exact stock_le_of_read hp rfl
  | resume => exact stock_le_of_read hp (cursor_resumed _)
  | become next =>
    have hb := hrank (Nat.zero_lt_of_lt (State.rank_lt_of_become hm))
    have hle := stock_le { s with cursor := s.cursor.next.2.back, state := next }
    rw [s.cursor.unread_back_next, ← stock_of_ne_blank hb] at hle
    exact hle
  | take kind => exact pays_finish (Nat.lt_of_lt_of_le hn hs)
  | leave kind =>
    have hb := hrank (State.rank_pos_of_leave hm)
    have hlt : s.cursor.next.2.back.unread.length < s.stock := by
      rw [s.cursor.unread_back_next, stock_of_ne_blank hb]
      exact Nat.lt_succ_self _
    exact pays_finish hlt
  | reject byte => exact stock_lt_of_reject hp rfl rfl

theorem pays_step (s : Scanner) : s.step.Pays s.stock := by
  rw [← stock_marked]
  exact s.marked.pays_look

theorem length_emissions_le (s : Scanner) : s.emissions.length ≤ s.stock := by
  induction s using step_induction with
  | halt s t hs =>
    rw [emissions_of_halt hs]
    exact Nat.zero_le _
  | silent s t hs ih =>
    have hpays := s.pays_step
    rw [hs] at hpays
    rw [emissions_of_silent hs]
    exact Nat.le_trans ih hpays
  | emit s e t hs ih =>
    have hpays := s.pays_step
    rw [hs] at hpays
    rw [emissions_of_emit hs]
    exact Nat.lt_of_le_of_lt ih hpays

theorem Has.stock_le_pending (h : s.Has rs) : s.stock ≤ s.cursor.pending.length := by
  rw [h.sound.pending_eq, List.length_append]
  by_cases hb : s.state = .blank
  · rw [stock_of_blank hb]
    exact Nat.le_add_left _ _
  · have hpos := List.length_pos_of_ne_nil (h.represented.demands.ne_nil hb)
    rw [stock_of_ne_blank hb]
    omega

/-- Whatever has been done: a scan takes no more than three steps for each unread byte and three at
the end. As many scans as there are bytes behind the start of the token under way, and one more,
come to the end of the input. No more tokens and errors come out than there are such bytes. -/
theorem bounded_of_deeds (interactive : Bool) (deeds : List (Nat × Deed)) :
    ∀ s ∈ performAll deeds [fresh interactive],
      scanWithin (3 * s.cursor.unread.length + 3) s = some s.scan ∧
        drainWithin (s.cursor.pending.length + 1) s = some s.drain ∧
        s.emissions.length ≤ s.cursor.pending.length := by
  intro s hs
  obtain ⟨rs, h⟩ := exists_has hs
  have hle : s.emissions.length ≤ s.cursor.pending.length :=
    Nat.le_trans s.length_emissions_le h.stock_le_pending
  refine ⟨scanWithin_eq ?_, drainWithin_eq (Nat.lt_succ_of_le hle), hle⟩
  have hr := s.state.rank_le_two
  rw [work]
  omega

theorem bounded_in_word :
    let deeds : List (Nat × Deed) := [(0, .append (Text.bytes "ls a")), (0, .scan), (0, .scan),
      (0, .append (0xFF :: Text.bytes "("))]
    ∃ s ∈ performAll deeds [fresh true], s.cursor.pending.length = 3 ∧
      s.emissions = [.malformed 0xFF .symbol, .token ⟨.symbol, "a\uFFFD"⟩,
        .token ⟨.openParen, "("⟩] ∧
      scanWithin (3 * s.cursor.unread.length + 3) s = some s.scan ∧
      drainWithin (s.cursor.pending.length + 1) s = some s.drain ∧
      s.emissions.length ≤ s.cursor.pending.length := by
  -- In a word the byte is reported, then the word ends in front of the parenthesis.
  intro deeds
  have hany : (performAll deeds [fresh true]).any (fun s => s.cursor.pending.length = 3 &&
      s.emissions = [.malformed 0xFF .symbol, .token ⟨.symbol, "a\uFFFD"⟩,
        .token ⟨.openParen, "("⟩]) = true := by
    decide +kernel
  obtain ⟨s, hs, hshape⟩ := List.any_eq_true.1 hany
  simp only [Bool.and_eq_true, decide_eq_true_eq] at hshape
  exact ⟨s, hs, hshape.1, hshape.2, bounded_of_deeds true deeds s hs⟩

end Scanner

end ShellTokens
