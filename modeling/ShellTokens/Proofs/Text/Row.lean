import ShellTokens.Proofs.Text.Whole

/-!
# Rows of runes

Bytes that are read one rune after the other, and the text that is made of the bytes. Whole
characters are the same in both. Where bytes are no text, a replacement stands for one or more of
them.
-/

namespace ShellTokens.Rune

open Text (replacement lossyChars subpartLength mayFollow)

def bytes : Rune → List UInt8
  | .char c => String.utf8EncodeChar c
  | .invalid byte => [byte]
  | .exhausted => []

/-- Read one after the other, the bytes give the runes, and then `rest` is still ahead. -/
inductive Row : List UInt8 → List Rune → List UInt8 → Prop
  | nil (rest : List UInt8) : Row rest [] rest
  | char (c : Char) {ahead rest : List UInt8} {rs : List Rune} (h : Row ahead rs rest) :
      Row (String.utf8EncodeChar c ++ ahead) (.char c :: rs) rest
  | invalid {byte : UInt8} {ahead rest : List UInt8} {rs : List Rune}
      (hb : read (byte :: ahead) = .invalid byte) (h : Row ahead rs rest) :
      Row (byte :: ahead) (.invalid byte :: rs) rest

variable {bs rest ahead : List UInt8} {rs qs : List Rune}

/-! ## One rune -/

theorem exists_of_read_char {c : Char} (h : read bs = .char c) :
    ∃ ahead, bs = String.utf8EncodeChar c ++ ahead := by
  cases bs with
  | nil => cases h
  | cons lead later =>
    cases hl : leading? (lead :: later) with
    | some d =>
      simp only [read, hl, char.injEq] at h
      obtain ⟨ahead, ha⟩ := leading?_eq_some_iff.1 hl
      exact ⟨ahead, h ▸ ha.symm⟩
    | none =>
      simp only [read, hl] at h
      split at h <;> cases h

theorem exists_of_read_invalid {byte : UInt8} (h : read bs = .invalid byte) :
    ∃ ahead, bs = byte :: ahead ∧ leading? bs = none := by
  cases bs with
  | nil => cases h
  | cons lead later =>
    cases hl : leading? (lead :: later) with
    | some d => simp only [read, hl, reduceCtorEq] at h
    | none =>
      simp only [read, hl] at h
      split at h
      · cases h
      · cases h
        exact ⟨later, rfl, rfl⟩

theorem row_read (h : read bs ≠ .exhausted) : Row bs [read bs] (bs.drop (read bs).width) := by
  rcases hr : read bs with c | byte | _
  · obtain ⟨ahead, rfl⟩ := exists_of_read_char hr
    rw [width, ← String.length_utf8EncodeChar c, List.drop_left]
    exact .char c (.nil ahead)
  · obtain ⟨ahead, rfl, -⟩ := exists_of_read_invalid hr
    exact .invalid hr (.nil ahead)
  · exact absurd hr h

/-! ## Rows -/

namespace Row

theorem bytes_eq (h : Row bs rs rest) : bs = rs.flatMap bytes ++ rest := by
  induction h with
  | nil rest => rfl
  | char c _ ih => rw [ih, List.flatMap_cons, List.append_assoc, bytes]
  | invalid _ _ ih => rw [ih, List.flatMap_cons, List.append_assoc, bytes, List.singleton_append]

theorem flatMap_bytes_ne_nil (h : Row bs rs rest) (hne : rs ≠ []) : rs.flatMap bytes ≠ [] := by
  cases h with
  | nil => exact absurd rfl hne
  | char c _ =>
    obtain ⟨lead, later, he, -⟩ := utf8EncodeChar_eq_cons c
    rw [List.flatMap_cons, bytes, he]
    exact List.cons_ne_nil lead _
  | @invalid byte _ _ _ _ _ => exact List.cons_ne_nil byte _

theorem trans (h : Row bs rs ahead) (h' : Row ahead qs rest) : Row bs (rs ++ qs) rest := by
  induction h with
  | nil => exact h'
  | char c _ ih => exact .char c (ih h')
  | invalid hb _ ih => exact .invalid hb (ih h')

theorem snoc (h : Row bs rs rest) (hr : read rest ≠ .exhausted) :
    Row bs (rs ++ [read rest]) (rest.drop (read rest).width) :=
  h.trans (row_read hr)

theorem head?_eq {c : Char} (h : Row bs rs rest) (hc : rs.head? = some (.char c)) :
    bs.head? = (String.utf8EncodeChar c).head? := by
  cases h with
  | nil => cases hc
  | char d _ =>
    cases hc
    obtain ⟨lead, later, he, -⟩ := utf8EncodeChar_eq_cons c
    rw [he]
    rfl
  | invalid _ _ => cases hc

theorem append (h : Row bs rs rest) (input : List UInt8) :
    Row (bs ++ input) rs (rest ++ input) := by
  induction h with
  | nil rest => exact .nil _
  | char c _ ih =>
    rw [List.append_assoc]
    exact .char c ih
  | invalid hb _ ih =>
    have ha := read_append (by rw [hb]; nofun) input
    exact .invalid (ha.trans hb) ih

/-- A byte that only ever stands inside a sequence is the first byte of no character. -/
theorem of_continuations {later tail : List UInt8} (hl : ∀ b ∈ later, isContinuation b = true)
    (h : Row bs rs rest) (he : rs.flatMap Rune.bytes = later ++ tail) :
    ∃ qs ahead, rs = later.map .invalid ++ qs ∧ qs.flatMap Rune.bytes = tail ∧
      Row ahead qs rest := by
  induction later generalizing bs rs with
  | nil => exact ⟨rs, bs, rfl, he, h⟩
  | cons b later ih =>
    have hl' : ∀ x ∈ later, isContinuation x = true :=
      fun x hx => hl x (List.mem_cons_of_mem b hx)
    cases h with
    | nil => cases he
    | char c h =>
      obtain ⟨lead, others, hc, ha, -⟩ := utf8EncodeChar_eq_cons c
      rw [List.flatMap_cons, Rune.bytes, hc, List.cons_append, List.cons_append,
        List.cons.injEq] at he
      have hb := hl b List.mem_cons_self
      rw [isContinuation_iff, ← he.1] at hb
      rw [announced_eq_some_iff] at ha
      omega
    | invalid _ h =>
      rw [List.flatMap_cons, Rune.bytes, List.singleton_append, List.cons_append,
        List.cons.injEq] at he
      obtain ⟨qs, ahead, rfl, hq, hrow⟩ := ih hl' h he.2
      rw [he.1]
      exact ⟨qs, ahead, rfl, hq, hrow⟩

end Row

/-! ## The text of a row -/

def shownAs : Rune → Char
  | .char c => c
  | _ => replacement

theorem shownAs_char (c : Char) : shownAs (.char c) = c := rfl

theorem shownAs_invalid (byte : UInt8) : shownAs (.invalid byte) = replacement := rfl

/-- The characters are a text for the runes. Bytes that are no text and stand side by side may have
one replacement together. -/
inductive Shown : List Rune → List Char → Prop
  | nil : Shown [] []
  | char (c : Char) {rs : List Rune} {cs : List Char} (h : Shown rs cs) :
      Shown (.char c :: rs) (c :: cs)
  | invalid (byte : UInt8) (later : List UInt8) {rs : List Rune} {cs : List Char}
      (h : Shown rs cs) :
      Shown (.invalid byte :: (later.map .invalid ++ rs)) (replacement :: cs)

theorem isContinuation_of_mayFollow {lead second : UInt8} (h : mayFollow lead second = true) :
    isContinuation second = true := by
  unfold mayFollow at h
  rw [isContinuation_iff]
  have hle {a b : UInt8} (hab : a ≤ b) : a.toNat ≤ b.toNat := hab
  repeat' split at h
  case isFalse.isFalse.isFalse.isFalse => rwa [isContinuation_iff] at h
  all_goals
    simp only [Bool.and_eq_true, decide_eq_true_eq] at h
    have h₁ := hle h.1
    have h₂ := hle h.2
    simp only [UInt8.reduceToNat] at h₁ h₂
    omega

theorem exists_subpart (lead : UInt8) (bs : List UInt8) :
    ∃ later tail, bs = later ++ tail ∧ later.length = subpartLength (lead :: bs) - 1 ∧
      ∀ b ∈ later, isContinuation b = true := by
  unfold subpartLength
  split
  · next second later he =>
    obtain ⟨rfl, rfl⟩ := List.cons.inj he
    split
    · next hf =>
      simp only [Bool.and_eq_true] at hf
      have hs := isContinuation_of_mayFollow hf.2
      split
      · next ht =>
        simp only [Bool.and_eq_true, Option.any_eq_true] at ht
        obtain ⟨third, hh, hc⟩ := ht.2
        obtain ⟨tail, rfl⟩ := List.head?_eq_some_iff.1 hh
        refine ⟨[second, third], tail, rfl, rfl, ?_⟩
        simp [hs, hc]
      · exact ⟨[second], later, rfl, rfl, by simp [hs]⟩
    · exact ⟨[], second :: later, rfl, rfl, nofun⟩
  · exact ⟨[], bs, rfl, rfl, nofun⟩

/-- The text of the bytes is one for the runes that are read from them. -/
theorem Row.shown (h : Row bs rs rest) : Shown rs (lossyChars (rs.flatMap bytes)) := by
  induction hn : rs.length using Nat.strongRecOn generalizing bs rs with
  | ind n ih =>
    cases h with
    | nil =>
      rw [List.flatMap_nil, lossyChars]
      exact .nil
    | @char c ahead _ rs h =>
      rw [List.flatMap_cons, bytes, Text.lossyChars_utf8EncodeChar_append]
      exact .char c (ih rs.length (hn ▸ Nat.lt_succ_self _) h rfl)
    | @invalid byte ahead _ rs hb h =>
      -- No character begins there, and so none does with fewer bytes behind.
      have hl : leading? (byte :: rs.flatMap bytes) = none := by
        obtain ⟨-, -, hl⟩ := exists_of_read_invalid hb
        rw [Option.eq_none_iff_forall_ne_some] at hl ⊢
        intro c hc
        refine hl c (leading?_eq_some_iff.2 ((leading?_eq_some_iff.1 hc).trans ?_))
        rw [h.bytes_eq, ← List.cons_append]
        exact List.prefix_append _ rest
      obtain ⟨later, tail, he, hlen, hcont⟩ := exists_subpart byte (rs.flatMap bytes)
      obtain ⟨qs, ahead', rfl, hq, hrow⟩ := h.of_continuations hcont he
      rw [List.flatMap_cons, bytes, List.singleton_append, lossyChars]
      simp only [hl]
      rw [← hlen, he, List.drop_left, ← hq]
      refine .invalid byte later (ih qs.length ?_ hrow rfl)
      rw [← hn, List.length_cons, List.length_append]
      omega

namespace Shown

variable {cs : List Char} {c : Char}

theorem mem (h : Shown rs cs) (hc : c ∈ cs) : c ∈ rs.map shownAs := by
  induction h with
  | nil => cases hc
  | char d _ ih =>
    rcases List.mem_cons.1 hc with rfl | hc
    · exact List.mem_cons_self
    · exact List.mem_cons_of_mem _ (ih hc)
  | invalid byte later _ ih =>
    rcases List.mem_cons.1 hc with rfl | hc
    · exact List.mem_cons_self
    · rw [List.map_cons, List.map_append]
      exact List.mem_cons_of_mem _ (List.mem_append_right _ (ih hc))

theorem head? (h : Shown rs cs) : cs.head? = (rs.map shownAs).head? := by
  cases h <;> rfl

theorem isEmpty (h : Shown rs cs) : cs.isEmpty = (rs.map shownAs).isEmpty := by
  cases h <;> rfl

theorem of_char_cons (h : Shown (.char c :: rs) cs) : ∃ ds, cs = c :: ds ∧ Shown rs ds := by
  cases h with
  | char _ h => exact ⟨_, rfl, h⟩

theorem of_concat_char (h : Shown (rs ++ [.char c]) cs) : ∃ ds, cs = ds ++ [c] ∧ Shown rs ds := by
  generalize hq : rs ++ [.char c] = qs at h
  induction h generalizing rs with
  | nil => exact absurd hq (by simp)
  | @char d qs ds h ih =>
    cases rs with
    | nil =>
      cases hq
      cases h
      exact ⟨[], rfl, .nil⟩
    | cons r rs =>
      obtain ⟨rfl, rfl⟩ := List.cons.inj hq
      obtain ⟨ds', rfl, h'⟩ := ih rfl
      exact ⟨d :: ds', rfl, .char d h'⟩
  | @invalid byte later qs ds h ih =>
    rcases List.eq_nil_or_concat qs with rfl | ⟨qs, last, rfl⟩
    · -- The last rune would be a byte that is no text.
      rw [List.append_nil, ← List.map_cons] at hq
      have hm : Rune.char c ∈ (byte :: later).map .invalid := by
        rw [← hq]
        exact List.mem_append_right _ List.mem_cons_self
      simp at hm
    · rw [List.concat_eq_append, ← List.append_assoc, ← List.cons_append] at hq
      obtain ⟨rfl, hl⟩ := List.append_inj' hq rfl
      cases hl
      obtain ⟨ds', rfl, h'⟩ := ih List.concat_eq_append.symm
      exact ⟨replacement :: ds', rfl, .invalid byte later h'⟩

end Shown

end ShellTokens.Rune
