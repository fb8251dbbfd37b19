import ShellTokens.Proofs.Scanner.Ahead
import ShellTokens.Proofs.Scanner.Reached
import ShellTokens.Text.Bytes

/-!
# What a line end finishes

A line end behind a text ends the token under way in every state but inside quotes and behind a
backslash, where it is read as any other character.
-/

namespace ShellTokens.Scanner

open Text (encoded)

variable {s t past : Scanner} {state : State} {ahead : List UInt8} {rs : List Rune}

/-! ## Text is read to its end -/

/-- The bytes ahead are whole characters. -/
def InText (s : Scanner) : Prop := ∃ cs, s.cursor.unread = encoded cs

theorem InText.drop {cs : List Char} {c : Cursor} (h : c.unread = encoded cs) :
    ∃ ds, c.next.2.unread = encoded ds := by
  rw [Cursor.unread_next, Cursor.peek_eq, h]
  cases cs with
  | nil => exact ⟨[], List.drop_nil⟩
  | cons d ds =>
    rw [Text.encoded_cons, Rune.read_utf8EncodeChar_append, Rune.width,
      ← String.length_utf8EncodeChar, List.drop_left]
    exact ⟨ds, rfl⟩

theorem InText.marked (h : s.InText) : s.marked.InText := by
  rwa [InText, unread_marked]

theorem unread_finish {kind : Kind} (h : (s.finish kind).on? = some t) :
    t.cursor.unread = s.cursor.unread := by
  unfold finish at h
  split at h <;> cases h <;> rfl

theorem InText.step (h : s.InText) (hs : s.step.on? = some t) : t.InText := by
  obtain ⟨cs, hu⟩ := h.marked
  have hnext := InText.drop hu
  have hback : s.marked.cursor.next.2.back.unread = encoded cs := by
    rw [Cursor.unread_back_next, hu]
  rw [Scanner.step] at hs
  unfold look at hs
  simp only at hs
  split at hs
  case h_1 => cases hs
  case h_4 =>
    cases hs
    exact ⟨cs, hback⟩
  case h_6 =>
    cases hs
    rwa [InText, cursor_resumed]
  case h_7 =>
    rwa [InText, unread_finish hs]
  case h_8 =>
    rw [InText, unread_finish hs]
    exact ⟨cs, hback⟩
  case h_9 =>
    cases hs
    rwa [InText, cursor_resumed]
  all_goals
    cases hs
    exact hnext

theorem peek_of_halt (h : s.step = .halt t) : s.marked.cursor.peek = .exhausted := by
  rw [Scanner.step] at h
  unfold look at h
  simp only at h
  split at h
  case h_1 hm => exact State.respond_eq_halt_iff.1 hm
  case h_7 => exact absurd h (finish_ne_halt _ _ t)
  case h_8 => exact absurd h (finish_ne_halt _ _ t)
  all_goals cases h

theorem InText.behind (h : s.InText) : s.behind.cursor.unread = [] := by
  induction s using step_induction with
  | halt s t hs =>
    obtain ⟨cs, hu⟩ := h.marked
    have hp := peek_of_halt hs
    rw [Cursor.peek_eq, hu] at hp
    rw [behind_of_halt hs, step_halt hs, hu]
    cases cs with
    | nil => rfl
    | cons c cs =>
      rw [Text.encoded_cons, Rune.read_utf8EncodeChar_append] at hp
      cases hp
  | silent s t hs ih =>
    rw [behind_of_silent hs]
    exact ih (h.step (by rw [hs]; rfl))
  | emit s e t hs ih =>
    rw [behind_of_emit hs]
    exact ih (h.step (by rw [hs]; rfl))

/-! ## The line end -/

/-- Scanning on ends between tokens, and no byte is pending. -/
def Flushed (s : Scanner) : Prop := s.behind.state = .blank ∧ s.behind.cursor.pending = []

theorem behind_of_on (h : s.step.on? = some t) : s.behind = t.behind := by
  cases hs : s.step with
  | halt u =>
    rw [hs] at h
    cases h
  | silent u =>
    rw [hs] at h
    cases h
    exact behind_of_silent hs
  | emit e u =>
    rw [hs] at h
    cases h
    exact behind_of_emit hs

theorem Flushed.of_on (h : s.step.on? = some t) (ht : t.Flushed) : s.Flushed := by
  rwa [Flushed, behind_of_on h]

theorem Ahead.behind_of_nothing (h : Ahead state [] past s) : s.behind = s.marked := by
  have hs : s.step = .halt s.marked := by
    rw [step, look, h.respond]
    rfl
  exact behind_of_halt hs

theorem Ahead.flushed_of_nothing (h : Ahead .blank [] past s) : s.Flushed := by
  rw [Flushed, h.behind_of_nothing, pending_marked_of_blank h.state]
  exact ⟨h.marked.state, h.unread⟩

theorem Ahead.on_finish (h : Ahead state ahead past s) (kind : Kind) :
    ∃ t, (s.finish kind).on? = some t ∧ Ahead .blank ahead t t := by
  unfold finish
  split <;> exact ⟨_, rfl, h.sound.mark, h.unread, rfl, rfl, rfl, rfl⟩

theorem Ahead.flushed_of_take {kind : Kind} (h : Ahead state ['\n'.toUInt8] past s)
    (hm : ∀ banged, state.respond banged (.char '\n') = .take kind) : s.Flushed := by
  have hr := h.reading
  rw [read_newline] at hr
  obtain ⟨t, ht, hat⟩ := hr.on_finish kind
  rw [← h.step_take (by rw [read_newline]; exact hm)] at ht
  exact .of_on ht hat.flushed_of_nothing

theorem Ahead.flushed_of_leave {kind : Kind} (h : Ahead state ['\n'.toUInt8] past s)
    (hm : ∀ banged, state.respond banged (.char '\n') = .leave kind) : s.Flushed := by
  have hs : s.step = finish kind { s.marked with cursor := s.marked.cursor.next.2.back } := by
    rw [step, look, h.respond, read_newline, hm]
  obtain ⟨t, ht, hat⟩ := h.back.on_finish kind
  rw [← hs] at ht
  exact .of_on ht (hat.flushed_of_take fun _ => rfl)

theorem Ahead.flushed_of_become {next : State} (h : Ahead state ['\n'.toUInt8] past s)
    (hm : ∀ banged, state.respond banged (.char '\n') = .become next)
    (hn : ∀ {u : Scanner}, Ahead next ['\n'.toUInt8] past u → u.Flushed) : s.Flushed := by
  have hs : s.step =
      .silent { s.marked with cursor := s.marked.cursor.next.2.back, state := next } := by
    rw [step, look, h.respond, read_newline, hm]
  exact .of_on (by rw [hs]; rfl) (hn (h.back.become next))

theorem Ahead.not_flushed_of_nothing (h : Ahead state [] past s) (hne : state ≠ .blank) :
    ¬ s.Flushed := by
  rintro ⟨hb, -⟩
  rw [h.behind_of_nothing, h.marked.state] at hb
  exact hne hb

theorem flushed_newline_iff (h : Ahead state ['\n'.toUInt8] past s)
    (hh : state.Holds past.saved rs) :
    s.Flushed ↔ state ∉ [.singleQuoted, .doubleQuoted, .bangString, .afterBackslash] := by
  have hkept (hm : ∀ banged, state.respond banged (.char '\n') = .keep) (hne : state ≠ .blank) :
      ¬ s.Flushed := by
    have hr := h.reading
    have hs := h.step_keep (by rw [read_newline]; exact hm)
    rw [read_newline] at hr
    rw [Flushed, behind_of_silent hs]
    exact hr.not_flushed_of_nothing hne
  cases state with
  | blank | comment => exact iff_of_true (h.flushed_of_take fun _ => rfl) (by decide)
  | symbol | afterAmpersand | afterBangGreater | afterColon | afterGreater | afterLess
  | afterPipe =>
    exact iff_of_true (h.flushed_of_leave fun _ => rfl) (by decide)
  | afterBang =>
    have hf := h.flushed_of_become (fun _ => rfl) fun hu => hu.flushed_of_leave fun _ => rfl
    exact iff_of_true hf (by decide)
  | singleQuoted | doubleQuoted | bangString =>
    exact iff_of_false (hkept (fun _ => rfl) (by decide)) (by decide)
  | afterBackslash =>
    obtain ⟨back, hv, hne⟩ := hh.exists_back
    have hr := h.reading
    rw [read_newline] at hr
    have hs : s.step = .silent s.reading.resumed := by
      rw [step, look, h.respond, read_newline]
      rfl
    have hback : Ahead back [] s.reading.resumed s.reading.resumed := by
      unfold resumed
      rw [if_pos hr.state, hr.saved, hv]
      exact ⟨hr.sound, hr.unread, rfl, rfl, rfl, rfl⟩
    refine iff_of_false ?_ (by decide)
    rw [Flushed, behind_of_silent hs]
    exact hback.not_flushed_of_nothing hne

/-- Between a text and its line end: all that is under way is finished, unless the text ends inside
quotes or behind a backslash. -/
theorem flushed_append_newline_iff (interactive : Bool) (text : String) :
    ((fresh interactive).append (Text.bytes (text ++ "\n"))).Flushed ↔
      ((fresh interactive).append (Text.bytes text)).behind.state ∉
        [.singleQuoted, .doubleQuoted, .bangString, .afterBackslash] := by
  let s := (fresh interactive).append (Text.bytes text)
  have hs : s.cursor.Sound := sound_append (sound_fresh interactive) (Text.bytes text)
  have htext : s.InText := ⟨text.toList, (sound_fresh interactive).unread_append _⟩
  obtain ⟨rs, hh⟩ := (has_of_blank hs rfl rfl).behind
  have hahead : Ahead s.behind.state ['\n'.toUInt8] s.behind (s.behind.append ['\n'.toUInt8]) := by
    refine ⟨hh.sound.append _, ?_, rfl, rfl, rfl, rfl⟩
    rw [append, hh.sound.unread_append, htext.behind, List.nil_append]
  have hwhole : (s.behind.append ['\n'.toUInt8]).behind.Alike
      ((fresh interactive).append (Text.bytes (text ++ "\n"))).behind := by
    rw [Text.bytes_append]
    exact (behind_append hs _).trans (append_append (sound_fresh interactive) _ _).drain.2
  have ht := hwhole.twins_behind
  have hp := ht.cursor.pending
  rw [List.append_nil] at hp
  rw [← flushed_newline_iff hahead hh.holds, Flushed, Flushed, ht.state, hp]

end ShellTokens.Scanner
