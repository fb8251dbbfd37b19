import ShellTokens.Proofs.Scanner.Chunks
import ShellTokens.Proofs.Scanner.Reads
import ShellTokens.Proofs.Token.Written

/-!
# Writing tokens and scanning them again

Tokens that are written one behind the other, with blanks in between, come out as they were.
-/

namespace ShellTokens.Scanner

open Text (isBlank unbroken isWord)

variable {state : State} {last : Option Kind} {done ahead : List Char} {c : Char} {s : Scanner}

/-! ## Behind a word -/

theorem onChar_of_isBlank (hb : isBlank c = true) (hs : state ≠ .symbol) (banged : Bool) :
    state.onChar banged c = state.otherwise := by
  simp only [isBlank, Bool.or_eq_true, decide_eq_true_eq] at hb
  rcases hb with (rfl | rfl) | rfl
  all_goals
    cases state
    case symbol => exact absurd rfl hs
    all_goals rfl

theorem isDelimiter_of_isBlank (hb : isBlank c = true) : State.isDelimiter c = true := by
  simp only [isBlank, Bool.or_eq_true, decide_eq_true_eq] at hb
  rcases hb with (rfl | rfl) | rfl <;> rfl

theorem onChar_symbol_of_isBlank (hb : isBlank c = true) (banged : Bool) :
    State.onChar .symbol banged c = .leave .symbol := by
  rw [State.onChar, if_pos (isDelimiter_of_isBlank hb)]

/-! ## Words and quotes -/

/-- Inside a word or quotes a state goes on over everything but what ends it. -/
theorem leads_unbroken {stop : Char → Bool} (hne : state ≠ .blank)
    (he : ∀ banged, state.onChar banged '\\' = .escape state)
    (hk : ∀ banged d, stop d = false → d ≠ '\\' → state.onChar banged d = .keep)
    (cs : List Char) (h : unbroken stop cs = true) : Leads c state cs state := by
  refine Text.unbroken_induction ?nil ?escaped ?char cs h
  case nil => exact .refl state
  case escaped => exact fun d cs ih => .escape hne he ih
  case char => exact fun d cs hd hs ih => .keep hne (fun banged => hk banged d hs hd) ih

theorem leads_symbol {cs : List Char} (h : unbroken State.isDelimiter cs = true) :
    Leads c .symbol cs .symbol := by
  refine leads_unbroken (by decide) (fun _ => rfl) ?_ cs h
  intro banged d hd hb
  rw [State.onChar, if_neg (by simp [hd]), if_neg hb]
  rfl

theorem leads_doubleQuoted {cs : List Char} (h : unbroken (· = '"') cs = true) :
    Leads c .doubleQuoted cs .doubleQuoted := by
  refine leads_unbroken (by decide) (fun _ => rfl) ?_ cs h
  intro banged d hd hb
  rw [State.onChar, if_neg (of_decide_eq_false hd), if_neg hb]
  rfl

theorem leads_bangString {cs : List Char} (h : unbroken (· = '"') cs = true) :
    Leads c .bangString cs .bangString := by
  refine leads_unbroken (by decide) (fun _ => rfl) ?_ cs h
  intro banged d hd hb
  rw [State.onChar, if_neg (of_decide_eq_false hd), if_neg hb]
  rfl

theorem leads_singleQuoted {cs : List Char} (h : '\'' ∉ cs) :
    Leads c .singleQuoted cs .singleQuoted := by
  induction cs with
  | nil => exact .refl _
  | cons d cs ih =>
    rw [List.mem_cons, not_or] at h
    refine .keep (by decide) (fun banged => ?_) (ih h.2)
    rw [State.onChar, if_neg (Ne.symm h.1)]
    rfl

/-! ## The first character of a word -/

theorem first_eq_enter_symbol (hd : State.isDelimiter c = false) (hc : c ≠ '\x7d')
    (hb : c ≠ '!') (he : c ≠ '\\') : State.first c = .enter .symbol := by
  unfold State.first
  split
  all_goals first | rfl | contradiction

theorem onChar_afterBang (h : c = '\\' ∨ State.isDelimiter c = false ∨ isBlank c = true)
    (banged : Bool) : State.onChar .afterBang banged c = .become .symbol := by
  have hc : c ≠ '"' ∧ c ≠ '>' ∧ c ≠ '|' := by
    refine ⟨?_, ?_, ?_⟩ <;> rintro rfl <;> revert h <;> decide
  rw [State.onChar, if_neg hc.1, if_neg hc.2.1, if_neg hc.2.2]
  rfl

theorem leads_word {cs : List Char} (hb : isBlank c = true) (h : isWord cs = true) :
    Leads c .blank cs .symbol := by
  simp only [isWord, Bool.and_eq_true, bne_iff_ne, ne_eq] at h
  obtain ⟨⟨hne, hf⟩, hu⟩ := h
  cases cs with
  | nil => exact absurd hne (by decide)
  | cons d cs =>
    by_cases he : d = '\\'
    · subst he
      cases cs with
      | nil => exact absurd hu (by decide)
      | cons e cs => exact .escape (by decide) (fun _ => rfl) (leads_symbol hu)
    · rw [Text.unbroken_cons he, Bool.and_eq_true, Bool.not_eq_true'] at hu
      by_cases hbang : d = '!'
      · subst hbang
        refine .enter (by decide) (fun _ => rfl) (.become (by decide) ?_ (leads_symbol hu.2))
        refine onChar_afterBang ?_
        cases cs with
        | nil => exact .inr (.inr hb)
        | cons e cs =>
          by_cases he' : e = '\\'
          · exact .inl he'
          · rw [Text.unbroken_cons he', Bool.and_eq_true, Bool.not_eq_true'] at hu
            exact .inr (.inl hu.2.1)
      · have hf' : d ≠ '\x7d' := fun h => hf (congrArg some h)
        exact .enter (by decide) (fun _ => first_eq_enter_symbol hu.1 hf' hbang he)
          (leads_symbol hu.2)

/-! ## Each token by itself -/

theorem scans_word {cs : List Char} (hb : isBlank c = true) (h : isWord cs = true) :
    Scans c .symbol cs :=
  .leave (leads_word hb h) (onChar_symbol_of_isBlank hb)

theorem leads_one {d : Char} (hm : State.first d = .enter state) (hne : state ≠ .blank) :
    Leads c .blank [d] state :=
  .enter hne (fun _ => hm) (.refl state)

theorem leads_bang {e : Char} (hm : ∀ banged, State.onChar .afterBang banged e = .enter state)
    (hne : state ≠ .blank) : Leads c .blank ['!', e] state :=
  .enter (by decide) (fun _ => rfl) (.enter hne hm (.refl state))

theorem scans_of_isBlank {kind : Kind} {cs : List Char} (hb : isBlank c = true)
    (h : Leads c .blank cs state) (ho : state.otherwise = .leave kind) (hs : state ≠ .symbol) :
    Scans c kind cs :=
  .leave h fun banged => (onChar_of_isBlank hb hs banged).trans ho

theorem scans_spelling (hb : isBlank c = true) :
    ∀ o ∈ Operator.all, Scans c o.kind o.spelling.toList := by
  intro o ho
  simp only [Operator.all, List.mem_cons, List.not_mem_nil, or_false] at ho
  rcases ho with rfl | rfl | rfl | rfl | rfl | rfl | rfl | rfl | rfl | rfl | rfl | rfl | rfl | rfl
  · show Scans c .redirect ['!', '>']
    exact scans_of_isBlank hb (leads_bang (fun _ => rfl) (by decide)) rfl (by decide)
  · show Scans c .redirect (['!', '>'] ++ ['>'])
    exact .take (leads_bang (fun _ => rfl) (by decide)) rfl
  · show Scans c .pipe ['!', '|']
    exact scans_of_isBlank hb (leads_bang (fun _ => rfl) (by decide)) rfl (by decide)
  · show Scans c .pipe (['!', '|'] ++ ['+'])
    exact .take (leads_bang (fun _ => rfl) (by decide)) rfl
  · show Scans c .background ['&']
    exact scans_of_isBlank hb (leads_one rfl (by decide)) rfl (by decide)
  · show Scans c .and (['&'] ++ ['&'])
    exact .take (leads_one rfl (by decide)) rfl
  · show Scans c .redirect ['<']
    exact scans_of_isBlank hb (leads_one rfl (by decide)) rfl (by decide)
  · show Scans c .substitute (['<'] ++ ['('])
    exact .take (leads_one rfl (by decide)) rfl
  · show Scans c .redirect ['>']
    exact scans_of_isBlank hb (leads_one rfl (by decide)) rfl (by decide)
  · show Scans c .substitute (['>'] ++ ['('])
    exact .take (leads_one rfl (by decide)) rfl
  · show Scans c .redirect (['>'] ++ ['>'])
    exact .take (leads_one rfl (by decide)) rfl
  · show Scans c .pipe ['|']
    exact scans_of_isBlank hb (leads_one rfl (by decide)) rfl (by decide)
  · show Scans c .pipe (['|'] ++ ['+'])
    exact .take (leads_one rfl (by decide)) rfl
  · show Scans c .or (['|'] ++ ['|'])
    exact .take (leads_one rfl (by decide)) rfl

theorem scans_singleQuoted {cs : List Char} (h : '\'' ∉ cs) :
    Scans c .singleQuoted (['\''] ++ cs ++ ['\'']) :=
  .take (.enter (by decide) (fun _ => rfl) (leads_singleQuoted h)) rfl

theorem scans_doubleQuoted {cs : List Char} (h : unbroken (· = '"') cs = true) :
    Scans c .doubleQuoted (['"'] ++ cs ++ ['"']) :=
  .take (.enter (by decide) (fun _ => rfl) (leads_doubleQuoted h)) rfl

theorem scans_bangString {cs : List Char} (h : unbroken (· = '"') cs = true) :
    Scans c .bangString (['!', '"'] ++ cs ++ ['"']) :=
  .take (.enter (by decide) (fun _ => rfl) (.enter (by decide) (fun _ => rfl)
    (leads_bangString h))) rfl

theorem scans_one {kind : Kind} {d : Char} (hm : State.first d = .take kind) :
    Scans c kind [d] := by
  show Scans c kind ([] ++ [d])
  exact .take (.refl .blank) hm

/-- The text of the token is scanned as the kind, and is normalized to the token. -/
structure Makes (c : Char) (kind : Kind) (t : Token) : Prop where
  scans : Scans c kind t.written
  normal : Token.normal kind (String.ofList t.written) = t
  newline : kind = .newline → t.kind = .newline

theorem makes_operator (hb : isBlank c = true) {o : Operator} (ho : o ∈ Operator.all) :
    Makes c o.kind ⟨o.kind, o.name⟩ := by
  refine ⟨?_, ?_, id⟩
  · rw [Token.written_operator o ho]
    exact scans_spelling hb o ho
  · rw [Token.written_operator o ho, String.ofList_toList]
    exact Token.normal_spelling o ho

theorem makes_symbol {text : String} (hb : isBlank c = true) (hw : isWord text.toList = true)
    (hs : text.toList.any Token.isBrace = false) : Makes c .symbol ⟨.symbol, text⟩ := by
  refine ⟨scans_word hb hw, ?_, nofun⟩
  have hne : text.toList ≠ ['\x7b'] := by
    intro h
    rw [h] at hs
    exact absurd hs (by decide)
  show Token.ofWord (String.ofList text.toList) = _
  rw [String.ofList_toList, Token.ofWord_of_isWord hw hne, hs]
  rfl

theorem makes_braceExpansion {text : String} (hb : isBlank c = true)
    (hw : isWord text.toList = true) (hs : text.toList.any Token.isBrace = true)
    (hl : 1 < text.utf8ByteSize) : Makes c .symbol ⟨.braceExpansion, text⟩ := by
  refine ⟨scans_word hb hw, ?_, nofun⟩
  have hne : text.toList ≠ ['\x7b'] := by
    intro h
    rw [← String.ofList_toList (s := text), h] at hl
    exact absurd hl (by decide)
  show Token.ofWord (String.ofList text.toList) = _
  rw [String.ofList_toList, Token.ofWord_of_isWord hw hne, if_pos hs]

theorem makes_written {t : Token} (hb : isBlank c = true) (hw : t.isWritable = true) :
    ∃ kind, Makes c kind t := by
  obtain ⟨kind, text⟩ := t
  -- A token that is always the same is the one that its character stands for.
  have hchar {d : Char} (h : decide (text.toList = [d]) = true) : text = String.ofList [d] := by
    rw [← of_decide_eq_true h, String.ofList_toList]
  cases kind
  case error | endOfInput | interrupt => exact absurd hw Bool.false_ne_true
  case background | and | or | pipe | redirect | substitute =>
    obtain ⟨o, ho, he⟩ := Token.exists_operator hw
    exact ⟨o.kind, he ▸ makes_operator hb ho⟩
  case singleQuoted =>
    have h : '\'' ∉ text.toList := by simpa [Token.isWritable] using hw
    exact ⟨.singleQuoted, scans_singleQuoted h, Token.normal_singleQuoted text, id⟩
  case doubleQuoted =>
    exact ⟨.doubleQuoted, scans_doubleQuoted hw, Token.normal_doubleQuoted text,
      fun h => by cases h⟩
  case bangString =>
    exact ⟨.bangString, scans_bangString hw, Token.normal_bangString text, fun h => by cases h⟩
  case symbol =>
    simp only [Token.isWritable, Bool.and_eq_true, Bool.not_eq_true'] at hw
    exact ⟨.symbol, makes_symbol hb hw.1 hw.2⟩
  case braceExpansion =>
    simp only [Token.isWritable, Bool.and_eq_true, decide_eq_true_eq] at hw
    exact ⟨.symbol, makes_braceExpansion hb hw.1.1 hw.1.2 hw.2⟩
  case cons =>
    obtain rfl : text = "::" := of_decide_eq_true hw
    refine ⟨.cons, ?_, rfl, id⟩
    show Scans c .cons ([':'] ++ [':'])
    exact .take (leads_one rfl (by decide)) rfl
  case colon =>
    obtain rfl := hchar hw
    exact ⟨.colon, scans_of_isBlank hb (leads_one rfl (by decide)) rfl (by decide), rfl, id⟩
  case openBrace =>
    obtain rfl := hchar hw
    exact ⟨.symbol, scans_word hb (by decide), rfl, fun h => by cases h⟩
  all_goals
    obtain rfl := hchar hw
    exact ⟨_, scans_one rfl, rfl, id⟩

/-! ## One behind the other -/

/-- Tokens as they are written, each with the blanks behind it. -/
def printed (ts : List (Token × List Char)) : List Char := ts.flatMap fun t => t.1.written ++ t.2

theorem At.skip_blanks {blanks : List Char} (hb : blanks.all isBlank = true)
    (h : s.At .blank last done (blanks ++ ahead)) (hd : done = []) :
    s.Reaches .blank last [] ahead := by
  induction blanks generalizing done s with
  | nil =>
    subst hd
    exact ⟨s, rfl, h⟩
  | cons b blanks ih =>
    rw [List.all_cons, Bool.and_eq_true] at hb
    exact (h.skip (onChar_of_isBlank hb.1 (by decide))).trans fun t ht => ih hb.2 ht rfl

theorem At.at_end (h : s.At .blank last [] []) :
    s.emissions = [] ∧ s.behind.state = .blank ∧ s.behind.cursor.pending = [] := by
  have hp : s.marked.cursor.peek = .exhausted := by
    rw [Cursor.peek_eq, h.cursor.unread]
    rfl
  have hs : s.step = .halt s.marked := by
    rw [step, look, hp]
    rfl
  rw [emissions_of_halt hs, behind_of_halt hs, h.cursor.sound.pending_eq, h.cursor.tokenBytes,
    h.cursor.unread]
  exact ⟨rfl, (state_marked s).trans h.state, rfl⟩

theorem At.printed (ts : List (Token × List Char))
    (hw : ∀ t ∈ ts, t.1.isWritable = true) (ho : (ts.map (·.1)).IsChain Token.Precedes)
    (hb : ∀ t ∈ ts, t.2 ≠ [] ∧ t.2.all isBlank = true)
    (hl : ∀ t ∈ ts.head?, counts t.1.kind last) (h : s.At .blank last [] (printed ts)) :
    s.emissions = ts.map (.token ·.1) ∧ s.behind.state = .blank ∧
      s.behind.cursor.pending = [] := by
  induction ts generalizing last s with
  | nil => exact h.at_end
  | cons t ts ih =>
    obtain ⟨t, blanks⟩ := t
    obtain ⟨hne, hall⟩ := hb _ List.mem_cons_self
    obtain ⟨b, blanks, rfl⟩ := List.exists_cons_of_ne_nil hne
    have hbb : isBlank b = true := by
      rw [List.all_cons, Bool.and_eq_true] at hall
      exact hall.1
    obtain ⟨kind, hm⟩ := makes_written hbb (hw _ List.mem_cons_self)
    have hc : counts kind last := fun hk => hl _ rfl ⟨hm.newline hk.1, hk.2⟩
    have he : Scanner.printed ((t, b :: blanks) :: ts) =
        t.written ++ b :: (blanks ++ Scanner.printed ts) := by
      simp [Scanner.printed]
    rw [he] at h
    obtain ⟨u, hu, hbu, hat⟩ := h.scans hm.scans hc
    rw [hm.normal] at hu hat
    obtain ⟨v, hv, hat'⟩ := At.skip_blanks hall hat rfl
    rw [List.map_cons, List.isChain_cons] at ho
    have hhead : ∀ t' ∈ ts.head?, counts t'.1.kind (some t.kind) := by
      intro t' ht'
      refine ho.1 t'.1 ?_
      rw [List.head?_map]
      exact Option.mem_map_of_mem _ ht'
    obtain ⟨hes, hst, hpe⟩ := ih (fun t ht => hw t (List.mem_cons_of_mem _ ht)) ho.2
      (fun t ht => hb t (List.mem_cons_of_mem _ ht)) hhead hat'
    have hue : u.emissions = v.emissions := by rw [emissions, ← hv, emissions]
    have hub : u.behind = v.behind := by rw [behind, ← hv, behind]
    rw [hu, hbu, hue, hub, hes]
    exact ⟨rfl, hst, hpe⟩

theorem fresh_append_at (interactive : Bool) (cs : List Char) :
    ((fresh interactive).append (Text.bytes (String.ofList cs))).At .blank none [] cs := by
  have hf := sound_fresh interactive
  have hc : ((fresh interactive).append (Text.bytes (String.ofList cs))).cursor.Reads [] cs := by
    refine ⟨hf.append _, hf.tokenBytes_append _, ?_⟩
    rw [Text.bytes_ofList]
    exact hf.unread_append _
  exact at_of_blank rfl rfl hc

/-- Tokens that are written and scanned come out as they were, and nothing else does. -/
theorem drain_printed (interactive : Bool) (ts : List (Token × List Char))
    (hw : Token.Writable (ts.map (·.1)))
    (hb : ∀ t ∈ ts, t.2 ≠ [] ∧ t.2.all isBlank = true) :
    let whole := ((fresh interactive).append (Text.bytes (String.ofList (printed ts)))).drain
    whole.1.map (·.1) = ts.map (.token ·.1) ∧ whole.2.state = .blank ∧
      whole.2.cursor.pending = [] := by
  intro whole
  refine At.printed ts ?_ hw.order hb ?_ (fresh_append_at interactive (printed ts))
  · intro t ht
    exact hw.each t.1 (List.mem_map_of_mem ht)
  · rintro t - ⟨-, hc⟩
    exact absurd hc (by decide)

def twoLines : List (Token × List Char) := [
  (⟨.symbol, "!run\\ é"⟩, [' ']), (⟨.braceExpansion, "-\x7ba,b\x7d"⟩, ['\t', ' ']),
  (⟨.bangString, "a\\\"b\\\\"⟩, [' ']), (⟨.redirect, "_append_stderr_"⟩, ['\r', ' ']),
  (⟨.singleQuoted, "no \\"⟩, [' ']), (⟨.newline, "\n"⟩, [' ']), (⟨.openBrace, "\x7b"⟩, [' ']),
  (⟨.colon, ":"⟩, [' ']), (⟨.cons, "::"⟩, [' ']), (⟨.doubleQuoted, ""⟩, [' ']),
  (⟨.or, "or"⟩, [' ']), (⟨.closeBrace, "\x7d"⟩, [' '])]

theorem drain_twoLines :
    Token.Writable (twoLines.map (·.1)) ∧
      (∀ t ∈ twoLines, t.2 ≠ [] ∧ t.2.all isBlank = true) ∧
      let text := "!run\\ é -\x7ba,b\x7d\t !\"a\\\"b\\\\\" !>>\r 'no \\' \n \x7b : :: \"\" || \x7d "
      let whole := ((fresh true).append (Text.bytes text)).drain
      whole.1.map (·.1) = twoLines.map (.token ·.1) ∧ whole.2.state = .blank ∧
        whole.2.cursor.pending = [] := by
  have hw : Token.Writable (twoLines.map (·.1)) := ⟨by decide, by decide⟩
  have hb : ∀ t ∈ twoLines, t.2 ≠ [] ∧ t.2.all isBlank = true := by decide
  exact ⟨hw, hb, drain_printed true twoLines hw hb⟩

end ShellTokens.Scanner
