import ShellTokens.Proofs.Cursor.Tape
import ShellTokens.Proofs.Text.Begun

/-!
# Characters, one after the other

What a cursor reads is told by the bytes that are ahead, exactly as UTF-8 has it. A character that
is cut anywhere is read as soon as all of it is there.
-/

namespace ShellTokens

open Rune (IsBegun isLost isCutShort)
open Text (encoded)

namespace Rune

def Unfinished (bs : List UInt8) : Prop :=
  bs = [] ∨ ∃ lead rest n, bs = lead :: rest ∧ announced lead = some n ∧ bs.length < n ∧
    ∀ b ∈ rest, isContinuation b = true

theorem unfinished_iff {bs : List UInt8} : Unfinished bs ↔ bs = [] ∨ isCutShort bs = true := by
  cases bs with
  | nil => exact iff_of_true (.inl rfl) (.inl rfl)
  | cons lead rest =>
    rw [Unfinished, or_iff_right (List.cons_ne_nil lead rest),
      or_iff_right (List.cons_ne_nil lead rest), isCutShort_iff]
    constructor
    · rintro ⟨_, _, n, he, ha, hlt, hall⟩
      obtain ⟨rfl, rfl⟩ := List.cons.inj he
      exact ⟨n, ha, hlt, List.all_eq_true.2 hall⟩
    · rintro ⟨n, ha, hlt, hall⟩
      exact ⟨lead, rest, n, rfl, ha, hlt, List.all_eq_true.1 hall⟩

end Rune

namespace Cursor

variable {c : Cursor}

/-! ## To the end of what is there -/

def readOn (c : Cursor) : List Rune × Cursor :=
  if _h : c.peek = .exhausted then ([], c.next.2)
  else
    let later := readOn c.next.2
    (c.next.1 :: later.1, later.2)
  termination_by c.unread.length
  decreasing_by exact length_unread_next_lt _h

def walk : List (List UInt8) → Cursor → List Rune × Cursor
  | [], c => ([], c)
  | chunk :: later, c =>
    let here := (c.append chunk).readOn
    let there := walk later here.2
    (here.1 ++ there.1, there.2)

theorem readOn_of_exhausted (h : c.peek = .exhausted) : c.readOn = ([], c.next.2) := by
  rw [readOn, dif_pos h]

theorem readOn_of_ne (h : c.peek ≠ .exhausted) :
    c.readOn = (c.peek :: c.next.2.readOn.1, c.next.2.readOn.2) := by
  rw [readOn, dif_neg h]
  rfl

theorem peek_next_of_exhausted (h : c.peek = .exhausted) : c.next.2.peek = .exhausted := by
  rw [peek_eq, unread_next, h, Rune.width, List.drop_zero, ← peek_eq, h]

theorem Sound.readOn {more : List UInt8} {cs : List Char} (h : c.Sound)
    (he : c.unread ++ more = encoded cs) :
    ∃ ds es, cs = ds ++ es ∧ c.readOn.1 = ds.map .char ∧
      c.readOn.2.unread ++ more = encoded es ∧ c.readOn.2.Sound ∧
      c.readOn.2.peek = .exhausted := by
  induction hn : c.unread.length using Nat.strongRecOn generalizing c cs with
  | ind n ih =>
    by_cases hp : c.peek = .exhausted
    · rw [readOn_of_exhausted hp]
      refine ⟨[], cs, rfl, rfl, ?_, h.next, peek_next_of_exhausted hp⟩
      rw [unread_next, hp, Rune.width, List.drop_zero, he]
    · have hr := hp
      rw [peek_eq] at hr
      have hread := Rune.read_append hr more
      rw [he, ← peek_eq] at hread
      cases cs with
      | nil => exact absurd hread.symm hp
      | cons d cs =>
        rw [Text.encoded_cons, Rune.read_utf8EncodeChar_append] at hread
        have hw : c.peek.width = (String.utf8EncodeChar d).length := by
          rw [← hread, Rune.width, String.length_utf8EncodeChar]
        have hlen := length_unread_next c
        have hnext : c.next.2.unread ++ more = encoded cs := by
          rw [unread_next, hw, ← List.drop_append_of_le_length (by omega), he, Text.encoded_cons,
            List.drop_left]
        obtain ⟨ds, es, rfl, hds, hes, hs, hx⟩ :=
          ih _ (hn ▸ length_unread_next_lt hp) h.next hnext rfl
        rw [readOn_of_ne hp, ← hread, hds]
        exact ⟨d :: ds, es, rfl, rfl, hes, hs, hx⟩

theorem walk_of_encoded {chunks : List (List UInt8)} {cs : List Char} (h : c.Sound)
    (hp : c.peek = .exhausted) (he : c.unread ++ chunks.flatten = encoded cs) :
    (walk chunks c).1 = cs.map .char ∧ (walk chunks c).2.unread = [] := by
  induction chunks generalizing c cs with
  | nil =>
    rw [List.flatten_nil, List.append_nil] at he
    cases cs with
    | nil => exact ⟨rfl, he⟩
    | cons d cs =>
      rw [peek_eq, he, Text.encoded_cons, Rune.read_utf8EncodeChar_append] at hp
      cases hp
  | cons chunk later ih =>
    rw [List.flatten_cons, ← List.append_assoc, ← h.unread_append] at he
    obtain ⟨ds, es, rfl, hds, hes, hs, hx⟩ := (h.append chunk).readOn he
    obtain ⟨hwalk, hend⟩ := ih hs hx hes
    rw [walk, hds, hwalk, List.map_append]
    exact ⟨rfl, hend⟩

theorem Sound.peek_foldl_append (h : c.Sound) (hp : c.peek ≠ .exhausted)
    (inputs : List (List UInt8)) :
    (inputs.foldl (fun d input => d.append input) c).peek = c.peek := by
  induction inputs generalizing c with
  | nil => rfl
  | cons input later ih =>
    have hstep := (lacks_append h input).peek hp
    rw [List.foldl_cons, ih (h.append input) (hstep ▸ hp), hstep]

/-- A character is read exactly where its encoding stands. Nothing is read, and more is waited for,
exactly where no byte is left or all that are left could belong to a sequence that is longer. All
else is an invalid byte. Later input changes nothing of what has been told, and so the bytes of a
text give its characters, however they are cut. -/
theorem reads_exactly :
    (∀ c : Cursor,
      (∀ ch w, c.peek = .char ch ∧ c.peek.width = w ↔
        String.utf8EncodeChar ch <+: c.unread ∧ (String.utf8EncodeChar ch).length = w) ∧
      (c.peek = .exhausted ∧ c.peek.width = 0 ↔ Rune.Unfinished c.unread) ∧
      ((∀ ch, ¬ String.utf8EncodeChar ch <+: c.unread) → ¬ Rune.Unfinished c.unread →
        ∃ b rest, c.unread = b :: rest ∧ c.peek = .invalid b ∧ c.peek.width = 1)) ∧
    (∀ c : Cursor, c.Sound → c.peek ≠ .exhausted → ∀ inputs : List (List UInt8),
      (inputs.foldl (fun d input => d.append input) c).peek = c.peek) ∧
    ∀ c : Cursor, c.Sound → c.unread = [] → ∀ (text : String) (chunks : List (List UInt8)),
      chunks.flatten = Text.bytes text →
        (walk chunks c).1 = text.toList.map .char ∧ (walk chunks c).2.unread = [] := by
  refine ⟨fun c => ⟨fun ch w => ?_, ?_, fun hc hu => ?_⟩, fun c hs => hs.peek_foldl_append,
    fun c hs hu text chunks he => ?_⟩
  · rw [peek_eq, Rune.read_eq_char_iff]
    refine and_congr_right fun hp => ?_
    rw [Rune.read_eq_char_iff.2 hp, Rune.width, String.length_utf8EncodeChar]
  · rw [peek_eq, Rune.unfinished_iff, ← Rune.read_eq_exhausted_iff]
    exact and_iff_left_of_imp fun hr => by rw [hr, Rune.width]
  · rw [Rune.unfinished_iff, not_or, Bool.not_eq_true] at hu
    obtain ⟨b, rest, hb⟩ := List.exists_cons_of_ne_nil hu.1
    rw [peek_eq]
    rw [hb] at hc hu ⊢
    have hr := Rune.read_eq_invalid hc hu.2
    exact ⟨b, rest, rfl, hr, by rw [hr, Rune.width]⟩
  · refine walk_of_encoded hs ?_ ?_
    · rw [peek_eq, hu, Rune.read]
    · rw [hu, List.nil_append, he, Text.bytes, encoded]

theorem reads_split :
    let chunks : List (List UInt8) := [Text.bytes "é" ++ [0xF0, 0x9F], [], [0x98], [0x80, 0x0A]]
    chunks.flatten = Text.bytes "é😀\n" ∧
      (walk chunks {}).1 = [.char 'é', .char '😀', .char '\n'] ∧ (walk chunks {}).2.unread = [] ∧
      (({} : Cursor).append [0xC3]).peek = .exhausted ∧
      (([[0x0A], [0xBF]] : List (List UInt8)).foldl (fun d input => d.append input)
        (({} : Cursor).append [0xC3, 0x28])).peek = .invalid 0xC3 := by
  -- The second character is cut twice, and another chunk is empty.
  intro chunks
  have he : chunks.flatten = Text.bytes "é😀\n" := by decide +kernel
  obtain ⟨hpeek, hstable, hwalk⟩ := reads_exactly
  have hstart : ({} : Cursor).Sound := ⟨Nat.le_refl 0, Nat.le_refl 0⟩
  have hcut : (({} : Cursor).append [0xC3]).peek = .exhausted :=
    ((hpeek _).2.1.2 (.inr ⟨0xC3, [], 2, rfl, rfl, by decide, nofun⟩)).1
  have hbroken : (({} : Cursor).append [0xC3, 0x28]).peek = .invalid 0xC3 := by decide +kernel
  have hlater := hstable _ (hstart.append [0xC3, 0x28]) (by rw [hbroken]; nofun) [[0x0A], [0xBF]]
  obtain ⟨hrunes, hend⟩ := hwalk {} hstart rfl "é😀\n" chunks he
  exact ⟨he, hrunes.trans (by decide +kernel), hend, hcut, hlater.trans hbroken⟩

/-! ## Waiting -/

theorem Sound.peek_append_of_isLost (h : c.Sound) (hne : c.unread ≠ [])
    (hl : isLost c.unread = true) (input : List UInt8) :
    (c.append input).peek =
      if isCutShort (c.unread ++ input) then .exhausted else .invalid (c.unread.head hne) := by
  obtain ⟨lead, rest, hb⟩ := List.exists_cons_of_ne_nil hne
  have hnone := Rune.not_isPrefix_of_isLost hl input
  rw [peek_eq, h.unread_append]
  simp only [hb, List.head_cons, List.cons_append] at hnone ⊢
  split
  · next hc => exact Rune.read_eq_exhausted_iff.2 (.inr hc)
  · next hc => exact Rune.read_eq_invalid hnone (Bool.not_eq_true _ ▸ hc)

/-- With bytes ahead, a cursor waits where they are the first ones of a character, and then it reads
that character once the others have come. Besides it waits where the bytes are lost, and nothing
that comes makes a character of them. All other bytes that never become a character are invalid at
once, also where nothing stands behind them. -/
theorem waits_exactly (h : c.Sound) (hne : c.unread ≠ []) :
    (c.peek = .exhausted ↔ IsBegun c.unread ∨ isLost c.unread = true) ∧
      (IsBegun c.unread → ∃ ch input, String.utf8EncodeChar ch = c.unread ++ input ∧
        (c.append input).peek = .char ch) ∧
      (isLost c.unread = true → ∀ input, (c.append input).peek =
        if isCutShort (c.unread ++ input) then .exhausted else .invalid (c.unread.head hne)) ∧
      ((∀ input ch, ¬ String.utf8EncodeChar ch <+: c.unread ++ input) →
        isLost c.unread = false → c.peek = .invalid (c.unread.head hne)) := by
  have hwaits : c.peek = .exhausted ↔ isCutShort c.unread = true := by
    rw [peek_eq, Rune.read_eq_exhausted_iff, or_iff_right hne]
  refine ⟨?_, ?_, h.peek_append_of_isLost hne, fun hnone hl => ?_⟩
  · rw [hwaits, Rune.isBegun_iff hne]
    constructor
    · intro hc
      by_cases hl : isLost c.unread = true
      · exact .inr hl
      · exact .inl ⟨hc, Bool.not_eq_true _ ▸ hl⟩
    · rintro (⟨hc, -⟩ | hl)
      · exact hc
      · exact Rune.isCutShort_of_isLost hl
  · rintro ⟨ch, ⟨input, hi⟩, -⟩
    refine ⟨ch, input, hi.symm, ?_⟩
    rw [peek_eq, h.unread_append, hi]
    exact Rune.read_eq_char_iff.2 List.prefix_rfl
  · have hc : isCutShort c.unread = false := by
      rw [← Bool.not_eq_true]
      intro hc
      obtain ⟨ch, input, hi⟩ := Rune.exists_isPrefix_of_isCutShort hc hl
      exact hnone input ch (hi ▸ List.prefix_rfl)
    obtain ⟨lead, rest, hb⟩ := List.exists_cons_of_ne_nil hne
    have hnow := hnone []
    rw [List.append_nil] at hnow
    rw [peek_eq]
    simp only [hb, List.head_cons] at hnow hc ⊢
    exact Rune.read_eq_invalid hnow hc

theorem waits_behind_token :
    let begun := [.append (Text.bytes "ls" ++ [0xF0, 0x9F]), .next, .next, .take].foldl perform {}
    let lost := [.append (Text.bytes "\"" ++ [0xED, 0xA0]), .next].foldl perform {}
    begun.Sound ∧ begun.unread = [0xF0, 0x9F] ∧ begun.peek = .exhausted ∧
      (∃ ch input, String.utf8EncodeChar ch = [0xF0, 0x9F] ++ input ∧
        (begun.append input).peek = .char ch) ∧
      lost.Sound ∧ lost.unread = [0xED, 0xA0] ∧ lost.peek = .exhausted ∧
      (lost.append [0x80]).peek = .invalid 0xED := by
  -- One of the cursors has half of a character ahead. The other has two bytes that no character
  -- begins with, and finds that out with the third.
  intro begun lost
  have hb : begun.Sound := sound_run (by decide +kernel)
  have hl : lost.Sound := sound_run (by decide +kernel)
  have hbu : begun.unread = [0xF0, 0x9F] := by decide +kernel
  have hlu : lost.unread = [0xED, 0xA0] := by decide +kernel
  have hbp : begun.peek = .exhausted := by decide +kernel
  have hlost : isLost lost.unread = true := by decide +kernel
  obtain ⟨hbwaits, hbcomes, -⟩ := waits_exactly hb (by rw [hbu]; exact List.cons_ne_nil _ _)
  obtain ⟨hlwaits, -, hltold, -⟩ := waits_exactly hl (by rw [hlu]; exact List.cons_ne_nil _ _)
  have hbegun : IsBegun begun.unread :=
    (hbwaits.1 hbp).resolve_right (by decide +kernel)
  obtain ⟨ch, input, he, hch⟩ := hbcomes hbegun
  have hthird : (lost.append [0x80]).peek = .invalid 0xED := by
    rw [hltold hlost, if_neg (by rw [hlu]; decide)]
    simp only [hlu, List.head_cons]
  exact ⟨hb, hbu, hbp, ⟨ch, input, hbu ▸ he, hch⟩, hl, hlu, hlwaits.2 (.inr hlost),
    hthird⟩

/-- A cursor waits behind a lead and a byte that may not follow it, though no character has the two
and none is ever read there. -/
theorem waits_in_vain :
    let c := [Step.append [0xE0, 0x80]].foldl perform {}
    c.peek = .exhausted ∧ c.unread = [0xE0, 0x80] ∧ ¬ IsBegun c.unread ∧
      ∀ input ch, (c.append input).peek ≠ .char ch := by
  intro c
  have hs : c.Sound := sound_run (by decide +kernel)
  have hu : c.unread = [0xE0, 0x80] := by decide +kernel
  have hne : c.unread ≠ [] := by rw [hu]; exact List.cons_ne_nil _ _
  have hl : isLost c.unread = true := by decide +kernel
  refine ⟨by decide +kernel, hu, ?_, fun input ch => ?_⟩
  · rw [Rune.isBegun_iff hne, hl]
    exact fun h => Bool.noConfusion h.2
  · rw [hs.peek_append_of_isLost hne hl]
    split <;> nofun

end Cursor

end ShellTokens
