import ShellTokens.Proofs.Text.Split

/-!
# Characters that have only begun

Bytes at the end of the input may be the first ones of a character that is still on its way. Which
bytes those are is told by the lead and by the one behind it, since only some may follow a lead.
-/

namespace ShellTokens.Rune

open Text (mayFollow)

variable {bs rest : List UInt8} {lead second : UInt8}

/-! ## What is read -/

theorem read_eq_char_iff {c : Char} : read bs = .char c ↔ String.utf8EncodeChar c <+: bs := by
  constructor
  · intro h
    obtain ⟨ahead, rfl⟩ := exists_of_read_char h
    exact List.prefix_append _ ahead
  · rintro ⟨ahead, rfl⟩
    exact read_utf8EncodeChar_append c ahead

theorem isCutShort_of_utf8EncodeChar {c : Char} (h : String.utf8EncodeChar c <+: bs) :
    isCutShort bs = false := by
  obtain ⟨first, later, he, ha, -⟩ := utf8EncodeChar_eq_cons c
  obtain ⟨ahead, rfl⟩ := h
  rw [he, List.cons_append, ← Bool.not_eq_true, isCutShort_iff, ha]
  rintro ⟨n, hn, hlt, -⟩
  cases hn
  rw [List.length_append] at hlt
  omega

theorem read_eq_exhausted_iff : read bs = .exhausted ↔ bs = [] ∨ isCutShort bs = true := by
  cases bs with
  | nil => exact iff_of_true rfl (.inl rfl)
  | cons lead rest =>
    rw [or_iff_right (List.cons_ne_nil lead rest)]
    cases hl : leading? (lead :: rest) with
    | some c => simp [read, hl, isCutShort_of_utf8EncodeChar (leading?_eq_some_iff.1 hl)]
    | none => simp [read, hl]

theorem read_eq_invalid (hc : ∀ c : Char, ¬ String.utf8EncodeChar c <+: lead :: rest)
    (hs : isCutShort (lead :: rest) = false) : read (lead :: rest) = .invalid lead := by
  have hl : leading? (lead :: rest) = none := by
    rw [Option.eq_none_iff_forall_ne_some]
    exact fun c h => hc c (leading?_eq_some_iff.1 h)
  simp [read, hl, hs]

/-! ## The bytes of a character -/

theorem mayFollow_iff :
    mayFollow lead second = true ↔
      0x80 ≤ second.toNat ∧ second.toNat < 0xC0 ∧ (lead.toNat = 0xE0 → 0xA0 ≤ second.toNat) ∧
        (lead.toNat = 0xED → second.toNat < 0xA0) ∧ (lead.toNat = 0xF0 → 0x90 ≤ second.toNat) ∧
        (lead.toNat = 0xF4 → second.toNat < 0x90) := by
  unfold mayFollow
  simp only [← UInt8.toNat_inj, UInt8.reduceToNat]
  repeat' split
  case isFalse.isFalse.isFalse.isFalse =>
    rw [isContinuation_iff]
    omega
  all_goals
    simp only [Bool.and_eq_true, decide_eq_true_eq, UInt8.le_iff_toNat_le, UInt8.reduceToNat]
    omega

theorem mayFollow_of_utf8EncodeChar {c : Char} {later : List UInt8}
    (h : String.utf8EncodeChar c = lead :: second :: later) :
    0xC2 ≤ lead ∧ lead ≤ 0xF4 ∧ mayFollow lead second = true := by
  have hc := c.valid
  simp only [UInt32.isValidChar, Nat.isValidChar] at hc
  rw [mayFollow_iff, UInt8.le_iff_toNat_le, UInt8.le_iff_toNat_le]
  simp only [UInt8.reduceToNat]
  revert h
  fun_cases String.utf8EncodeChar c
  · nofun
  all_goals
    intro h
    simp only [List.cons.injEq] at h
    obtain ⟨rfl, rfl, -⟩ := h
    simp only [UInt8.toNat_ofNat']
    omega

theorem exists_char_of_code {n : Nat} (h : n.isValidChar) : ∃ c : Char, c.val.toNat = n :=
  ⟨Char.ofNatAux n h, rfl⟩

/-- All bytes that are as they have to be make a character. -/
theorem exists_utf8EncodeChar {later : List UInt8} (hl : 0xC2 ≤ lead ∧ lead ≤ 0xF4)
    (hm : mayFollow lead second = true) (hc : later.all isContinuation = true)
    (ha : announced lead = some (later.length + 2)) :
    ∃ c, String.utf8EncodeChar c = lead :: second :: later := by
  have hbyte {n : Nat} {b : UInt8} (h : n % 2 ^ 8 = b.toNat) : UInt8.ofNat n = b := by
    rw [← UInt8.toNat_inj, UInt8.toNat_ofNat', h]
  simp only [UInt8.le_iff_toNat_le, UInt8.reduceToNat] at hl
  rw [mayFollow_iff] at hm
  rw [announced_eq_some_iff] at ha
  simp only [List.all_eq_true, isContinuation_iff] at hc
  rcases later with _ | ⟨third, _ | ⟨fourth, _ | ⟨fifth, later⟩⟩⟩
  · simp only [List.length_nil] at ha
    obtain ⟨c, hn⟩ := exists_char_of_code
      (n := (lead.toNat - 0xC0) * 0x40 + (second.toNat - 0x80)) (.inl (by omega))
    refine ⟨c, ?_⟩
    rw [String.utf8EncodeChar, hn, if_neg (by omega), if_pos (by omega),
      hbyte (b := lead) (by omega), hbyte (b := second) (by omega)]
  · have h₃ := hc third (by simp)
    simp only [List.length_cons, List.length_nil] at ha
    obtain ⟨c, hn⟩ := exists_char_of_code
      (n := (lead.toNat - 0xE0) * 0x1000 + (second.toNat - 0x80) * 0x40 + (third.toNat - 0x80)) (by
        simp only [Nat.isValidChar]
        omega)
    refine ⟨c, ?_⟩
    rw [String.utf8EncodeChar, hn, if_neg (by omega), if_neg (by omega), if_pos (by omega),
      hbyte (b := lead) (by omega), hbyte (b := second) (by omega), hbyte (b := third) (by omega)]
  · have h₃ := hc third (by simp)
    have h₄ := hc fourth (by simp)
    simp only [List.length_cons, List.length_nil] at ha
    obtain ⟨c, hn⟩ := exists_char_of_code
      (n := (lead.toNat - 0xF0) * 0x40000 + (second.toNat - 0x80) * 0x1000 +
        (third.toNat - 0x80) * 0x40 + (fourth.toNat - 0x80)) (.inr (by omega))
    refine ⟨c, ?_⟩
    rw [String.utf8EncodeChar, hn, if_neg (by omega), if_neg (by omega), if_neg (by omega),
      hbyte (b := lead) (by omega), hbyte (b := second) (by omega), hbyte (b := third) (by omega),
      hbyte (b := fourth) (by omega)]
  · simp only [List.length_cons] at ha
    omega

/-! ## The first bytes of a character -/

/-- A character begins with the bytes and goes on behind them. -/
def IsBegun (bs : List UInt8) : Prop :=
  ∃ c, bs <+: String.utf8EncodeChar c ∧ bs ≠ String.utf8EncodeChar c

/-- The bytes are cut short, but no character begins with them: the first one is the lead of none,
or the second one may not follow it. -/
def isLost : List UInt8 → Bool
  | [] => false
  | lead :: rest =>
    isCutShort (lead :: rest) &&
      !(0xC2 ≤ lead && lead ≤ 0xF4 && rest.head?.all (mayFollow lead))

theorem isCutShort_of_isLost (h : isLost bs = true) : isCutShort bs = true := by
  cases bs with
  | nil => cases h
  | cons lead rest =>
    rw [isLost, Bool.and_eq_true] at h
    exact h.1

theorem not_isPrefix_of_isLost (h : isLost bs = true) (input : List UInt8) (c : Char) :
    ¬ String.utf8EncodeChar c <+: bs ++ input := by
  intro hp
  cases bs with
  | nil => cases h
  | cons lead rest =>
    obtain ⟨n, ha, hlt, -⟩ := isCutShort_iff.1 (isCutShort_of_isLost h)
    obtain ⟨first, others, he, hfirst, -⟩ := utf8EncodeChar_eq_cons c
    rw [he, List.cons_append, List.cons_prefix_cons] at hp
    obtain ⟨rfl, hp⟩ := hp
    rw [ha, Option.some.injEq] at hfirst
    rcases others with _ | ⟨second, later⟩
    · rw [List.length_nil] at hfirst
      omega
    · obtain ⟨hlow, hhigh, hm⟩ := mayFollow_of_utf8EncodeChar he
      have hhead : rest.head?.all (mayFollow first) = true := by
        rcases rest with _ | ⟨b, rest⟩
        · rfl
        · rw [List.cons_append, List.cons_prefix_cons] at hp
          rw [List.head?_cons, Option.all_some, ← hp.1, hm]
      simp [isLost, hlow, hhigh, hhead] at h

theorem exists_mayFollow (lead : UInt8) : ∃ second, mayFollow lead second = true := by
  simp only [mayFollow_iff]
  by_cases hf : lead.toNat = 0xF0
  · exact ⟨0x90, by simp [hf]⟩
  · by_cases he : lead.toNat = 0xE0
    · exact ⟨0xA0, by simp [he]⟩
    · exact ⟨0x80, by simp [he, hf]⟩

theorem exists_isPrefix_of_isCutShort (h : isCutShort bs = true) (hl : isLost bs = false) :
    ∃ c, bs <+: String.utf8EncodeChar c := by
  cases bs with
  | nil => cases h
  | cons lead rest =>
    obtain ⟨n, ha, hlt, hrest⟩ := isCutShort_iff.1 h
    simp only [isLost, h, Bool.true_and, Bool.not_eq_false', Bool.and_eq_true,
      decide_eq_true_eq] at hl
    obtain ⟨hlead, hhead⟩ := hl
    -- The bytes that are still missing: one that may follow the lead, and then any that continue.
    have hzero : isContinuation 0x80 = true := rfl
    obtain ⟨second, later, hp, hm, hc, hn⟩ : ∃ second later, rest <+: second :: later ∧
        mayFollow lead second = true ∧ later.all isContinuation = true ∧ n = later.length + 2 := by
      rcases rest with _ | ⟨second, rest⟩
      · obtain ⟨second, hm⟩ := exists_mayFollow lead
        refine ⟨second, List.replicate (n - 2) 0x80, List.nil_prefix, hm, ?_, ?_⟩
        · simp [hzero]
        · rw [List.length_replicate]
          rw [List.length_nil] at hlt
          omega
      · rw [List.all_cons, Bool.and_eq_true] at hrest
        refine ⟨second, rest ++ List.replicate (n - 2 - rest.length) 0x80,
          List.cons_prefix_cons.2 ⟨rfl, List.prefix_append _ _⟩, hhead, ?_, ?_⟩
        · simp [hrest.2, hzero]
        · rw [List.length_append, List.length_replicate]
          rw [List.length_cons] at hlt
          omega
    obtain ⟨c, he⟩ := exists_utf8EncodeChar hlead hm hc (hn ▸ ha)
    exact ⟨c, he ▸ List.cons_prefix_cons.2 ⟨rfl, hp⟩⟩

theorem isBegun_iff (hne : bs ≠ []) : IsBegun bs ↔ isCutShort bs = true ∧ isLost bs = false := by
  constructor
  · rintro ⟨c, hp, hbs⟩
    obtain ⟨lead, rest, rfl⟩ := List.exists_cons_of_ne_nil hne
    have hlen : rest.length + 1 < c.utf8Size := by
      rw [← String.length_utf8EncodeChar, ← List.length_cons (a := lead)]
      exact Nat.lt_of_le_of_ne hp.length_le fun h => hbs (hp.eq_of_length h)
    refine ⟨isCutShort_of_isPrefix hp hlen, ?_⟩
    rw [← Bool.not_eq_true]
    intro hl
    obtain ⟨more, hmore⟩ := hp
    exact not_isPrefix_of_isLost hl more c (hmore ▸ List.prefix_rfl)
  · rintro ⟨hc, hl⟩
    obtain ⟨c, hp⟩ := exists_isPrefix_of_isCutShort hc hl
    refine ⟨c, hp, fun h => ?_⟩
    rw [h, isCutShort_of_utf8EncodeChar List.prefix_rfl] at hc
    cases hc

end ShellTokens.Rune
