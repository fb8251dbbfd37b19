import ShellTokens.Proofs.Text.Row
import ShellTokens.Proofs.Token.Written

/-!
# How tokens are spelled

A token is scanned from runes, and some of them may be bytes that are no text. What they spell is
normalized to a token that can be written, for a replacement character is as good as any other.
-/

namespace ShellTokens

open Text (replacement unbroken)
open Rune (Shown shownAs)

/-- The runes are a token of the kind, as it is scanned. -/
inductive Kind.Spelled : Kind → List Rune → Prop
  | one {kind : Kind} {c : Char} (h : kind.char? = some c) : Spelled kind [.char c]
  | comment {inner : List Rune} (h : '\n' ∉ inner.map shownAs) :
      Spelled .newline (.char '#' :: (inner ++ [.char '\n']))
  | operator {o : Operator} (h : o ∈ Operator.all) :
      Spelled o.kind (o.spelling.toList.map .char)
  | cons : Spelled .cons [.char ':', .char ':']
  | singleQuoted {inner : List Rune} (h : '\'' ∉ inner.map shownAs) :
      Spelled .singleQuoted (.char '\'' :: (inner ++ [.char '\'']))
  | doubleQuoted {inner : List Rune} (h : unbroken (· = '"') (inner.map shownAs) = true) :
      Spelled .doubleQuoted (.char '"' :: (inner ++ [.char '"']))
  | bangString {inner : List Rune} (h : unbroken (· = '"') (inner.map shownAs) = true) :
      Spelled .bangString (.char '!' :: .char '"' :: (inner ++ [.char '"']))
  | word {rs : List Rune} (h : Text.isWord (rs.map shownAs) = true) : Spelled .symbol rs

/-! ## The text of what is spelled -/

namespace Rune.Shown

variable {rs : List Rune} {cs : List Char} {stop : Char → Bool}

theorem of_chars (ds : List Char) (h : Shown (ds.map .char) cs) : cs = ds := by
  induction ds generalizing cs with
  | nil =>
    cases h
    rfl
  | cons d ds ih =>
    obtain ⟨es, rfl, hes⟩ := h.of_char_cons
    rw [ih hes]

theorem unbroken_replacements (hs : stop replacement = false) (later : List UInt8) :
    unbroken stop ((later.map Rune.invalid).map shownAs) = true := by
  induction later with
  | nil => rfl
  | cons b later ih =>
    rw [List.map_cons, List.map_cons, Rune.shownAs_invalid, Text.unbroken_cons (by decide), hs, ih]
    rfl

theorem unbroken_of_map (h : Shown rs cs) (hs : stop replacement = false) :
    (unbroken stop (rs.map shownAs) = true → unbroken stop cs = true) ∧
      (unbroken stop ('\\' :: rs.map shownAs) = true → unbroken stop ('\\' :: cs) = true) := by
  induction h with
  | nil => exact ⟨id, id⟩
  | @char c rs cs h ih =>
    refine ⟨fun hu => ?_, ih.1⟩
    by_cases hc : c = '\\'
    · subst hc
      exact ih.2 hu
    · rw [List.map_cons, Rune.shownAs_char, Text.unbroken_cons hc, Bool.and_eq_true] at hu
      rw [Text.unbroken_cons hc, hu.1, ih.1 hu.2]
      rfl
  | @invalid byte later rs cs h ih =>
    have hlater : unbroken stop ((later.map Rune.invalid ++ rs).map shownAs) =
        unbroken stop (rs.map shownAs) := by
      rw [List.map_append, Text.unbroken_append (unbroken_replacements hs later)]
    have hfirst {ds : List Char} : unbroken stop (replacement :: ds) = unbroken stop ds := by
      rw [Text.unbroken_cons (by decide), hs]
      rfl
    refine ⟨fun hu => ?_, fun hu => ih.1 (hlater ▸ hu)⟩
    rw [List.map_cons, Rune.shownAs_invalid, hfirst, hlater] at hu
    rw [hfirst]
    exact ih.1 hu

end Rune.Shown

/-! ## The token -/

namespace Token

theorem eq_newline_of_normal {kind : Kind} {text : String}
    (h : (normal kind text).kind = .newline) : kind = .newline := by
  cases kind
  case symbol =>
    unfold normal ofWord at h
    simp only at h
    repeat' split at h
    all_goals cases h
  all_goals first | rfl | cases h

theorem isWritable_operator : ∀ o ∈ Operator.all, isWritable ⟨o.kind, o.name⟩ = true := by decide

theorem one_lt_utf8ByteSize {text : String} (h : Text.isWord text.toList = true)
    (hb : text.toList ≠ ['\x7b']) (ha : text.toList.any isBrace = true) :
    1 < text.utf8ByteSize := by
  rw [← String.ofList_toList (s := text), Text.utf8ByteSize_ofList]
  cases hcs : text.toList with
  | nil =>
    rw [hcs] at h
    cases h
  | cons c rest =>
    rw [hcs] at h hb ha
    have hc := c.utf8Size_pos
    rw [Text.encoded_cons, List.length_append, String.length_utf8EncodeChar]
    cases rest with
    | nil =>
      simp only [List.any_cons, List.any_nil, Bool.or_false, isBrace, Bool.or_eq_true,
        decide_eq_true_eq] at ha
      rcases ha with rfl | rfl
      · exact absurd rfl hb
      · cases h
    | cons d rest =>
      have hd := d.utf8Size_pos
      rw [Text.encoded_cons, List.length_append, String.length_utf8EncodeChar]
      omega

theorem isWritable_ofWord {text : String} (h : Text.isWord text.toList = true) :
    (ofWord text).isWritable = true := by
  by_cases hb : text.toList = ['\x7b']
  · unfold ofWord
    rw [hb]
    exact decide_eq_true hb
  · rw [ofWord_of_isWord h hb]
    split
    · next ha =>
      have hsize := one_lt_utf8ByteSize h hb ha
      unfold isWritable
      rw [h, ha, decide_eq_true hsize]
      rfl
    · next ha =>
      unfold isWritable
      rw [h, eq_false_of_ne_true ha]
      rfl

end Token

namespace Kind.Spelled

variable {kind : Kind} {rs : List Rune} {cs : List Char}

theorem exists_quoted (opening : List Char) {close : Char} {inner : List Rune}
    (h : Shown (opening.map .char ++ (inner ++ [.char close])) cs) :
    ∃ text : String, cs = opening ++ text.toList ++ [close] ∧ Shown inner text.toList := by
  induction opening generalizing cs with
  | nil =>
    obtain ⟨ds, rfl, hd⟩ := h.of_concat_char
    refine ⟨String.ofList ds, ?_, ?_⟩
    · rw [String.toList_ofList]
      rfl
    · rwa [String.toList_ofList]
  | cons o opening ih =>
    obtain ⟨ds, rfl, hd⟩ := h.of_char_cons
    obtain ⟨text, rfl, ht⟩ := ih hd
    exact ⟨text, rfl, ht⟩

/-- Text of what is spelled is normalized to a token that can be written. -/
theorem isWritable (h : kind.Spelled rs) (hs : Shown rs cs) :
    (Token.normal kind (String.ofList cs)).isWritable = true := by
  cases h with
  | one h =>
    obtain rfl := Shown.of_chars [_] hs
    cases kind <;> cases h <;> decide
  | comment h =>
    rw [Token.normal]
    decide
  | operator h =>
    obtain rfl := Shown.of_chars _ hs
    rw [String.ofList_toList, Token.normal_spelling _ h]
    exact Token.isWritable_operator _ h
  | cons =>
    obtain rfl := Shown.of_chars [':', ':'] hs
    decide
  | singleQuoted h =>
    obtain ⟨text, rfl, ht⟩ := exists_quoted ['\''] hs
    have hq : '\'' ∉ text.toList := fun hm => h (ht.mem hm)
    rw [Token.normal_singleQuoted]
    simpa [Token.isWritable] using hq
  | doubleQuoted h =>
    obtain ⟨text, rfl, ht⟩ := exists_quoted ['"'] hs
    rw [Token.normal_doubleQuoted]
    exact (ht.unbroken_of_map rfl).1 h
  | bangString h =>
    obtain ⟨text, rfl, ht⟩ := exists_quoted ['!', '"'] hs
    rw [Token.normal_bangString]
    exact (ht.unbroken_of_map rfl).1 h
  | word h =>
    refine Token.isWritable_ofWord ?_
    rw [String.toList_ofList]
    simp only [Text.isWord, Bool.and_eq_true] at h ⊢
    rw [hs.isEmpty, hs.head?]
    exact ⟨h.1, (hs.unbroken_of_map rfl).1 h.2⟩

end Kind.Spelled

end ShellTokens
