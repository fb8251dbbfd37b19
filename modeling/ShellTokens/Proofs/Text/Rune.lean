import ShellTokens.Text.Rune

/-!
# Reading does not look past its rune

What has been read stays so, whatever input comes behind it.
-/

namespace ShellTokens.Rune

/-! ## The bytes of a character -/

theorem isContinuation_iff (b : UInt8) :
    isContinuation b = true ↔ 0x80 ≤ b.toNat ∧ b.toNat < 0xC0 := by
  have h : ∀ n : Fin 256, isContinuation (UInt8.ofNat n) = true ↔ 0x80 ≤ n.val ∧ n.val < 0xC0 := by
    decide +kernel
  simpa using h ⟨b.toNat, b.toNat_lt⟩

theorem announced_eq (b : UInt8) : announced b =
    if b.toNat ≤ 0x7F then some 1 else if b.toNat < 0xC0 then none
    else if b.toNat ≤ 0xDF then some 2 else if b.toNat ≤ 0xEF then some 3
    else if b.toNat ≤ 0xF7 then some 4 else none := rfl

theorem announced_eq_some_iff (b : UInt8) (n : Nat) :
    announced b = some n ↔
      (n = 1 ∧ b.toNat < 0x80) ∨ (n = 2 ∧ 0xC0 ≤ b.toNat ∧ b.toNat < 0xE0) ∨
        (n = 3 ∧ 0xE0 ≤ b.toNat ∧ b.toNat < 0xF0) ∨ (n = 4 ∧ 0xF0 ≤ b.toNat ∧ b.toNat < 0xF8) := by
  rw [announced_eq]
  repeat' split
  all_goals simp only [Option.some.injEq, reduceCtorEq, false_iff]
  all_goals omega

theorem isContinuation_later (n : Nat) : isContinuation (UInt8.ofNat (n % 0x40 + 0x80)) = true := by
  rw [isContinuation_iff, UInt8.toNat_ofNat']
  omega

/-- The first byte of an encoding announces its length, and the others continue it. -/
theorem utf8EncodeChar_eq_cons (c : Char) : ∃ lead later,
    String.utf8EncodeChar c = lead :: later ∧ announced lead = some (later.length + 1) ∧
      later.all isContinuation = true := by
  have hc : c.val.toNat < 0x110000 := by
    have := c.valid
    simp only [UInt32.isValidChar, Nat.isValidChar] at this
    omega
  fun_cases String.utf8EncodeChar c
  all_goals
    refine ⟨_, _, rfl, ?_, by
      simp only [List.all_cons, List.all_nil, Bool.and_true, isContinuation_later]⟩
    rw [announced_eq_some_iff, UInt8.toNat_ofNat']
    simp only [List.length_cons, List.length_nil, true_and]
    omega

theorem announced_of_leading? {lead : UInt8} {rest : List UInt8} {c : Char}
    (h : leading? (lead :: rest) = some c) : announced lead = some c.utf8Size := by
  obtain ⟨first, later, he, ha, -⟩ := utf8EncodeChar_eq_cons c
  have hp := leading?_eq_some_iff.1 h
  rw [he, List.cons_prefix_cons] at hp
  rw [← String.length_utf8EncodeChar, he, ← hp.1]
  exact ha

theorem leading?_of_announced {stray : UInt8} (h : announced stray = none) (rest : List UInt8) :
    leading? (stray :: rest) = none := by
  rw [Option.eq_none_iff_forall_ne_some]
  intro c hc
  cases h.symm.trans (announced_of_leading? hc)

/-! ## More input -/

theorem isCutShort_of_isPrefix {lead : UInt8} {rest : List UInt8} {c : Char}
    (h : lead :: rest <+: String.utf8EncodeChar c) (hl : rest.length + 1 < c.utf8Size) :
    isCutShort (lead :: rest) = true := by
  obtain ⟨first, later, he, ha, hall⟩ := utf8EncodeChar_eq_cons c
  rw [he, List.cons_prefix_cons] at h
  obtain ⟨rfl, hp⟩ := h
  have hs : c.utf8Size = later.length + 1 := by
    rw [← String.length_utf8EncodeChar, he, List.length_cons]
  have hr : rest.all isContinuation = true := by
    rw [List.all_eq_true] at hall ⊢
    exact fun b hb => hall b (hp.subset hb)
  simp only [isCutShort, ha, hr, Bool.and_true, decide_eq_true_eq]
  omega

theorem isCutShort_of_append {bs input : List UInt8} (hne : bs ≠ [])
    (h : isCutShort (bs ++ input) = true) : isCutShort bs = true := by
  cases bs with
  | nil => exact absurd rfl hne
  | cons lead rest =>
    simp only [List.cons_append, isCutShort] at h ⊢
    cases ha : announced lead with
    | none => simp [ha] at h
    | some n =>
      simp only [ha, List.length_append, List.all_append, Bool.and_eq_true,
        decide_eq_true_eq] at h ⊢
      exact ⟨by omega, h.2.1⟩

theorem leading?_append_eq_none {lead : UInt8} {rest input : List UInt8}
    (hl : leading? (lead :: rest) = none)
    (h : isCutShort (lead :: rest) = true → input.head?.any isContinuation = false) :
    leading? (lead :: rest ++ input) = none := by
  rw [Option.eq_none_iff_forall_ne_some]
  intro c he
  have hp := leading?_eq_some_iff.1 he
  rcases Nat.lt_or_ge (lead :: rest).length c.utf8Size with hlt | hge
  · -- The character has been cut short, and goes on in the input.
    have hb : lead :: rest <+: String.utf8EncodeChar c :=
      List.prefix_of_prefix_length_le (List.prefix_append _ input) hp
        (by simpa using Nat.le_of_lt hlt)
    have hnext := h (isCutShort_of_isPrefix hb hlt)
    obtain ⟨first, later, hc, -, hall⟩ := utf8EncodeChar_eq_cons c
    obtain ⟨behind, hbehind⟩ := hb
    rw [← hbehind, List.prefix_append_right_inj] at hp
    rw [← String.length_utf8EncodeChar, ← hbehind] at hlt
    rw [hc, List.cons_append, List.cons.injEq] at hbehind
    rcases behind with _ | ⟨b, behind⟩
    · simp at hlt
    · obtain ⟨more, rfl⟩ := hp
      have hb : b ∈ later := by
        rw [← hbehind.2]
        exact List.mem_append_right _ List.mem_cons_self
      simp [List.all_eq_true.1 hall b hb] at hnext
  · have hb : String.utf8EncodeChar c <+: lead :: rest :=
      List.prefix_of_prefix_length_le hp (List.prefix_append _ input) (by simpa using hge)
    simp [leading?_eq_some_iff.2 hb] at hl

/-- What has been read stays so, whatever input comes behind it. -/
theorem read_append {bs : List UInt8} (h : read bs ≠ .exhausted) (input : List UInt8) :
    read (bs ++ input) = read bs := by
  cases bs with
  | nil => exact absurd rfl h
  | cons lead rest =>
    cases hl : leading? (lead :: rest) with
    | some c =>
      have hp := (leading?_eq_some_iff.1 hl).trans (List.prefix_append _ input)
      have hl' := leading?_eq_some_iff.2 hp
      rw [List.cons_append] at hl' ⊢
      simp only [read, hl, hl']
    | none =>
      have hc : isCutShort (lead :: rest) = false := by
        simpa [read, hl] using h
      have hc' : isCutShort (lead :: rest ++ input) = false := by
        rw [Bool.eq_false_iff] at hc ⊢
        exact fun ht => hc (isCutShort_of_append (List.cons_ne_nil _ _) ht)
      have hl' : leading? (lead :: rest ++ input) = none :=
        leading?_append_eq_none hl fun ht => by simp [hc] at ht
      rw [List.cons_append] at hl' hc' ⊢
      simp only [read, hl, hl', hc, hc']

theorem read_utf8EncodeChar_append (c : Char) (input : List UInt8) :
    read (String.utf8EncodeChar c ++ input) = .char c := by
  have hl := leading?_eq_some_iff.2 (List.prefix_append (String.utf8EncodeChar c) input)
  obtain ⟨lead, later, he, -⟩ := utf8EncodeChar_eq_cons c
  rw [he, List.cons_append] at hl ⊢
  simp only [read, hl]

theorem read_before {stop : UInt8} (hs : isContinuation stop = false) (lead : UInt8)
    (rest later : List UInt8) :
    read (lead :: rest ++ stop :: later) ≠ .exhausted ∧
      (read (lead :: rest ++ stop :: later)).width ≤ rest.length + 1 := by
  rw [List.cons_append]
  cases hl : leading? (lead :: (rest ++ stop :: later)) with
  | some c =>
    simp only [read, hl, width]
    refine ⟨(fun he => by cases he), Nat.le_of_not_lt fun hw => ?_⟩
    obtain ⟨first, others, he, -, hall⟩ := utf8EncodeChar_eq_cons c
    have hp := leading?_eq_some_iff.1 hl
    rw [← String.length_utf8EncodeChar] at hw
    rw [he] at hp hw
    obtain ⟨rfl, hothers⟩ := List.cons_prefix_cons.1 hp
    have hlen : (rest ++ [stop]).length ≤ others.length := by
      rw [List.length_append, List.length_singleton]
      simp only [List.length_cons] at hw
      omega
    have hq : rest ++ [stop] <+: rest ++ stop :: later := ⟨later, List.append_assoc _ _ _⟩
    have hm : stop ∈ others :=
      (List.prefix_of_prefix_length_le hq hothers hlen).subset (by simp)
    rw [List.all_eq_true.1 hall stop hm] at hs
    cases hs
  | none =>
    have hc : isCutShort (lead :: (rest ++ stop :: later)) = false := by
      simp only [isCutShort]
      cases announced lead with
      | none => rfl
      | some n => simp [hs]
    simp only [read, hl, hc, width]
    exact ⟨(fun he => by cases he), Nat.le_add_left 1 _⟩

/-! ## The length first -/

/-- Reading that goes by the announced length, and how many bytes it takes up: first whether so many
are there, and then what text these are, without a look behind them. -/
def readAnnounced : List UInt8 → Rune × Nat
  | [] => (.exhausted, 0)
  | lead :: rest =>
    match announced lead with
    | none => (.invalid lead, 1)
    | some n =>
      if rest.length + 1 < n then
        if rest.all isContinuation then (.exhausted, 0) else (.invalid lead, 1)
      else
        match String.fromUTF8? ((lead :: rest).take n).toByteArray with
        | none => (.invalid lead, 1)
        | some text =>
          match text.toList with
          | [] => (.exhausted, 0)
          | c :: _ => (.char c, n)

theorem fromUTF8?_take {lead : UInt8} {rest : List UInt8} {n : Nat}
    (h : announced lead = some n) :
    String.fromUTF8? ((lead :: rest).take n).toByteArray =
      (leading? (lead :: rest)).map String.singleton := by
  cases hl : leading? (lead :: rest) with
  | some c =>
    obtain rfl := Option.some.inj (h.symm.trans (announced_of_leading? hl))
    have ht : ((lead :: rest).take c.utf8Size).toByteArray = [c].utf8Encode := by
      rw [List.utf8Encode_singleton, ← String.length_utf8EncodeChar]
      rw [← List.prefix_iff_eq_take.1 (leading?_eq_some_iff.1 hl)]
    have hv : ((lead :: rest).take c.utf8Size).toByteArray.IsValidUTF8 := ⟨[c], ht⟩
    rw [String.fromUTF8?, dif_pos hv, Option.map_some, Option.some.injEq, ← String.toByteArray_inj,
      String.toByteArray_singleton]
    exact ht
  | none =>
    rw [String.fromUTF8?, dif_neg, Option.map_none]
    rintro ⟨cs, hcs⟩
    have hcs : (lead :: rest).take n = cs.flatMap String.utf8EncodeChar := by
      simpa [List.utf8Encode] using congrArg (·.data.toList) hcs
    cases cs with
    | nil =>
      have hn : n = 0 := by simpa using hcs
      have hpos := (announced_eq_some_iff lead n).1 h
      omega
    | cons c cs =>
      have hp : String.utf8EncodeChar c <+: lead :: rest := by
        refine List.IsPrefix.trans ?_ (List.take_prefix n (lead :: rest))
        rw [hcs, List.flatMap_cons]
        exact List.prefix_append _ _
      rw [leading?_eq_some_iff.2 hp] at hl
      cases hl

theorem readAnnounced_eq (bytes : List UInt8) :
    readAnnounced bytes = (read bytes, (read bytes).width) := by
  cases bytes with
  | nil => rfl
  | cons lead rest =>
    cases ha : announced lead with
    | none =>
      have hl := leading?_of_announced ha rest
      simp [readAnnounced, read, isCutShort, ha, hl, width]
    | some n =>
      simp only [readAnnounced, read, isCutShort, ha, fromUTF8?_take ha]
      cases hl : leading? (lead :: rest) with
      | some c =>
        obtain rfl := Option.some.inj (ha.symm.trans (announced_of_leading? hl))
        have hle := Nat.not_lt.2 (utf8Size_le_of_leading? hl)
        simp only [List.length_cons] at hle
        simp only [hle, if_false, Option.map_some, String.toList_singleton, width]
      | none =>
        by_cases hn : rest.length + 1 < n
        · cases hr : rest.all isContinuation <;> simp [hn, width]
        · simp [hn, width]

end ShellTokens.Rune
