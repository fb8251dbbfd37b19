import ShellTokens.Proofs.Scanner.Ahead
import ShellTokens.Proofs.Scanner.Reached
import ShellTokens.Proofs.Scanner.RoundTrip

/-!
# What does not count

Between tokens a scanner passes over blanks and over the text of a comment, and in a command that
needs another line it passes over newlines. Behind them it goes on as if they had not been there.
-/

namespace ShellTokens.Scanner

variable {s t u : Scanner} {ahead later : List UInt8}

/-! ## Going on alike -/

/-- Scanning on brings out the same in both with the same first words, and nothing tells them apart
then. -/
structure EndsAs (s t : Scanner) : Prop where
  drain : s.drain.1 = t.drain.1
  state : s.behind.state = t.behind.state
  saved : s.behind.saved = t.behind.saved
  after : s.behind.after = t.behind.after
  depth : s.behind.depth = t.behind.depth
  words : s.behind.words = t.behind.words
  pending : s.behind.cursor.pending = t.behind.cursor.pending
  isSettled : s.behind.isSettled = t.behind.isSettled

/-- Scanning on brings out the same in both, and leaves them where nothing tells them apart. -/
def Meets (s t : Scanner) : Prop := t.emissions = s.emissions ∧ s.behind.Alike t.behind

theorem Meets.endsAs (h : s.Meets t) (hw : t.words = s.words) : s.EndsAs t := by
  obtain ⟨he, hb⟩ := h
  obtain ⟨hse, hsw⟩ := s.drain_words
  obtain ⟨hte, htw⟩ := t.drain_words
  have ht := hb.twins_behind
  have hp := ht.cursor.pending
  rw [List.append_nil] at hp
  refine ⟨?_, ht.state.symm, ht.saved.symm, ht.after.symm, ht.depth.symm, ?_, hp.symm,
    ht.isSettled⟩
  · rw [hse, hte, he, hw]
  · rw [hsw, htw, he, hw]

theorem Meets.of_silent (h : s.step = .silent u) (hu : u.Meets t) : s.Meets t := by
  rw [Meets, emissions_of_silent h, behind_of_silent h]
  exact hu

theorem meets_of_lacks (h : Step.Lacks [] s.step t.step) : s.Meets t := by
  cases hs : s.step with
  | halt u =>
    rw [hs] at h
    obtain ⟨v, ht, hv⟩ := h.of_halt
    rw [Meets, emissions_of_halt hs, emissions_of_halt ht, behind_of_halt hs, behind_of_halt ht]
    exact ⟨rfl, hv⟩
  | silent u =>
    rw [hs] at h
    obtain ⟨v, ht, hv⟩ := h.of_silent
    rw [Meets, emissions_of_silent hs, emissions_of_silent ht, behind_of_silent hs,
      behind_of_silent ht]
    exact Alike.drain hv
  | emit e u =>
    rw [hs] at h
    obtain ⟨v, ht, hv⟩ := h.of_emit
    obtain ⟨he, hb⟩ := Alike.drain hv
    rw [Meets, emissions_of_emit hs, emissions_of_emit ht, behind_of_emit hs, behind_of_emit ht,
      he]
    exact ⟨rfl, hb⟩

variable {past : Scanner} {state : State}

theorem Ahead.meets (hs : Ahead .blank ahead past s) (ht : Ahead .blank ahead past t) :
    s.Meets t := by
  refine Alike.drain (alike_iff.2 ⟨hs.sound, ht.sound, ?_⟩)
  unfold standing
  rw [hs.unread, ht.unread, hs.state, ht.state, hs.saved, ht.saved, hs.after, ht.after, hs.depth,
    ht.depth, if_pos rfl, if_pos rfl]

/-! ## Comments, blanks and newlines -/

theorem Ahead.finish_newline {other : State} (hs : Ahead state ahead past s)
    (ht : Ahead other ahead past t) :
    Step.Lacks [] (s.finish .newline) (t.finish .newline) := by
  have hc : t.continuesLine = s.continuesLine := by
    rw [continuesLine, continuesLine, hs.after, ht.after]
  unfold finish
  rw [hc]
  split
  · refine .silent (alike_iff.2 ⟨hs.sound.mark, ht.sound.mark, ?_⟩)
    unfold standing
    simp only [Cursor.unread_mark, hs.unread, ht.unread, hs.saved, ht.saved, hs.after, ht.after,
      hs.depth, ht.depth, if_true]
  · refine .emit _ (alike_iff.2 ⟨hs.sound.mark, ht.sound.mark, ?_⟩)
    unfold standing record
    simp only [Cursor.unread_mark, hs.unread, ht.unread, hs.saved, ht.saved, hs.depth, ht.depth,
      if_true]
    rfl

theorem Ahead.meets_newline (hs : Ahead .comment ('\n'.toUInt8 :: later) past s)
    (ht : Ahead .blank ('\n'.toUInt8 :: later) past t) : s.Meets t := by
  have hls : s.step = s.reading.finish .newline :=
    hs.step_take (by rw [read_newline]; exact fun _ => rfl)
  have hlt : t.step = t.reading.finish .newline :=
    ht.step_take (by rw [read_newline]; exact fun _ => rfl)
  refine meets_of_lacks ?_
  rw [hls, hlt]
  exact hs.reading.finish_newline ht.reading

theorem Ahead.meets_comment {comment : List UInt8} (hn : '\n'.toUInt8 ∉ comment)
    (hs : Ahead .comment (comment ++ '\n'.toUInt8 :: later) past s)
    (ht : Ahead .blank ('\n'.toUInt8 :: later) past t) : s.Meets t := by
  induction h : comment.length using Nat.strongRecOn generalizing comment s with
  | ind n ih =>
    cases comment with
    | nil => exact hs.meets_newline ht
    | cons lead rest =>
      have hc : Rune.isContinuation '\n'.toUInt8 = false := by decide
      obtain ⟨hne, hw⟩ := Rune.read_before hc lead rest later
      have hchar : Rune.read (lead :: rest ++ '\n'.toUInt8 :: later) ≠ .char '\n' := by
        intro hr
        obtain ⟨ahead, ha⟩ := Rune.exists_of_read_char hr
        exact hn (List.mem_cons.2 (.inl (List.cons.inj ha).1.symm))
      have hm (banged : Bool) : State.respond .comment banged
          (Rune.read (lead :: rest ++ '\n'.toUInt8 :: later)) = .keep := by
        cases hr : Rune.read (lead :: rest ++ '\n'.toUInt8 :: later) with
        | char c => exact if_neg fun hc => hchar (hr.trans (congrArg _ hc))
        | invalid b => rfl
        | exhausted => exact absurd hr hne
      have hread := hs.reading
      have hpos := Rune.width_pos hne
      generalize (Rune.read (lead :: rest ++ '\n'.toUInt8 :: later)).width = w at hw hpos hread
      rw [List.drop_append_of_le_length hw] at hread
      refine .of_silent (hs.step_keep hm)
        (ih _ ?_ (fun hd => hn (List.mem_of_mem_drop hd)) hread rfl)
      rw [List.length_cons] at h
      rw [List.length_drop, List.length_cons]
      omega

theorem Ahead.meets_blanks {blanks : List UInt8}
    (hb : ∀ b ∈ blanks, b ∈ ['\t'.toUInt8, '\r'.toUInt8, ' '.toUInt8])
    (hs : Ahead .blank (blanks ++ later) past s) (ht : Ahead .blank later past t) : s.Meets t := by
  induction blanks generalizing s with
  | nil => exact hs.meets ht
  | cons b blanks ih =>
    obtain ⟨hb, hrest⟩ := List.forall_mem_cons.1 hb
    -- Each of them is a character of one byte.
    have hread : ∃ c, Text.isBlank c = true ∧ Rune.read (b :: (blanks ++ later)) = .char c ∧
        c.utf8Size = 1 := by
      simp only [List.mem_cons, List.not_mem_nil, or_false] at hb
      rcases hb with rfl | rfl | rfl
      · exact ⟨'\t', rfl, Rune.read_utf8EncodeChar_append '\t' _, rfl⟩
      · exact ⟨'\r', rfl, Rune.read_utf8EncodeChar_append '\r' _, rfl⟩
      · exact ⟨' ', rfl, Rune.read_utf8EncodeChar_append ' ' _, rfl⟩
    obtain ⟨c, hc, hr, hw⟩ := hread
    have hm (banged : Bool) : State.respond .blank banged (Rune.read (b :: (blanks ++ later))) =
        .keep := by
      rw [hr]
      exact onChar_of_isBlank hc (show State.blank ≠ .symbol by decide) banged
    have hahead := hs.reading
    rw [List.cons_append, hr, Rune.width, hw] at hahead
    exact .of_silent (hs.step_keep hm) (ih hrest hahead)

theorem Ahead.meets_continued (hl : past.continuesLine = true)
    (hs : Ahead .blank ('\n'.toUInt8 :: later) past s) (ht : Ahead .blank later past t) :
    s.Meets t := by
  have hstep : s.step = s.reading.finish .newline :=
    hs.step_take (by rw [read_newline]; exact fun _ => rfl)
  have hread := hs.reading
  rw [read_newline] at hread
  have hc : s.reading.continuesLine = true := by
    rw [continuesLine, hread.after]
    exact hl
  rw [finish, if_pos ⟨rfl, hc⟩] at hstep
  have hrest : Ahead .blank later past
      { s.reading with cursor := s.reading.cursor.mark, state := .blank } :=
    ⟨hread.sound.mark, hread.unread, rfl, hread.saved, hread.after, hread.depth⟩
  exact .of_silent hstep (hrest.meets ht)

/-! ## Between tokens -/

theorem ahead_append_of_unread (hs : s.cursor.Sound) (hu : s.cursor.unread = [])
    (input : List UInt8) : Ahead s.state input s (s.append input) := by
  refine ⟨hs.append input, ?_, rfl, rfl, rfl, rfl⟩
  rw [append, hs.unread_append, hu, List.nil_append]

theorem ahead_append (hs : s.cursor.Sound) (hb : s.state = .blank) (hp : s.cursor.pending = [])
    (input : List UInt8) : Ahead .blank input s (s.append input) := by
  have hu : s.cursor.unread = [] := by
    rw [hs.pending_eq] at hp
    exact (List.append_eq_nil_iff.1 hp).2
  exact hb ▸ ahead_append_of_unread hs hu input

/-- Where no token is under way, a comment in front of a newline does not tell, and neither do
blanks in front of anything. A newline does not tell behind a token that carries the command on. -/
theorem invisible_between_tokens {s : Scanner} {es : List Emission} (h : Reached s es)
    (hb : s.state = .blank) (hp : s.cursor.pending = []) (later : List UInt8) :
    (∀ comment : List UInt8, '\n'.toUInt8 ∉ comment →
      (s.append ('#'.toUInt8 :: comment ++ '\n'.toUInt8 :: later)).EndsAs
        (s.append ('\n'.toUInt8 :: later))) ∧
    (∀ blanks : List UInt8, (∀ b ∈ blanks, b ∈ ['\t'.toUInt8, '\r'.toUInt8, ' '.toUInt8]) →
      (s.append (blanks ++ later)).EndsAs (s.append later)) ∧
    ((lastKind es).any Kind.continuesLine = true →
      (s.append ('\n'.toUInt8 :: later)).EndsAs (s.append later)) := by
  obtain ⟨⟨rs, hh⟩, ha⟩ := h.remembers
  have hahead := ahead_append hh.sound hb hp
  refine ⟨fun comment hn => ?_, fun blanks hblanks => ?_, fun hl => ?_⟩
  · have hs := hahead ('#'.toUInt8 :: comment ++ '\n'.toUInt8 :: later)
    have hr : Rune.read ('#'.toUInt8 :: comment ++ '\n'.toUInt8 :: later) = .char '#' :=
      Rune.read_utf8EncodeChar_append '#' _
    have hstep : Scanner.step _ = .silent { reading _ with state := .comment } :=
      hs.step_enter (by rw [hr]; exact fun _ => rfl)
    have hread := hs.reading
    rw [hr] at hread
    have hcomment : Ahead .comment (comment ++ '\n'.toUInt8 :: later) s _ :=
      hread.become .comment
    exact (Meets.of_silent hstep (hcomment.meets_comment hn (hahead _))).endsAs rfl
  · exact ((hahead (blanks ++ later)).meets_blanks hblanks (hahead later)).endsAs rfl
  · have hc : s.continuesLine = true := by rwa [continuesLine, ha]
    exact ((hahead ('\n'.toUInt8 :: later)).meets_continued hc (hahead later)).endsAs rfl

theorem invisible_behind_pipe :
    let input := Text.bytes "a |+ " ++ [0xFF] ++ Text.bytes " # c\n"
    let s := ((fresh true).append input).scan.2.scan.2.scan.2.scan.2
    let later := Text.bytes "b\n"
    s.state = .blank ∧ s.cursor.pending = [] ∧ s.after.any Kind.continuesLine = true ∧
      (s.append ('#'.toUInt8 :: [0x62, 0xE2, 0x82] ++ '\n'.toUInt8 :: later)).EndsAs
        (s.append ('\n'.toUInt8 :: later)) ∧
      (s.append (['\t'.toUInt8, ' '.toUInt8] ++ later)).EndsAs (s.append later) ∧
      (s.append ('\n'.toUInt8 :: later)).EndsAs (s.append later) := by
  -- The last token is a pipe. A byte that is no text and a comment have come behind it, and the
  -- comment that is added ends in the middle of a character.
  intro input s later
  have h := ((Reached.fresh true).append input).scan.scan.scan.scan
  have hb : s.state = .blank := by decide +kernel
  have hp : s.cursor.pending = [] := by decide +kernel
  obtain ⟨hcomment, hblanks, hnewline⟩ := invisible_between_tokens h hb hp later
  exact ⟨hb, hp, by decide +kernel, hcomment _ (by decide), hblanks _ (by simp),
    hnewline (by decide +kernel)⟩

end ShellTokens.Scanner
