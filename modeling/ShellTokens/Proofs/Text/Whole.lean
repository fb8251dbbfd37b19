import ShellTokens.Proofs.Text.Rune
import ShellTokens.Text.Bytes
import ShellTokens.Text.Lossy
import ShellTokens.Text.Slice

/-!
# Whole characters

Bytes that are text come out as that text, and a part of it that is cut between characters is made
of the characters there.
-/

namespace ShellTokens.Text

/-- The bytes of characters, one after the other. -/
def encoded (cs : List Char) : List UInt8 := cs.flatMap String.utf8EncodeChar

theorem encoded_cons (c : Char) (cs : List Char) :
    encoded (c :: cs) = String.utf8EncodeChar c ++ encoded cs := rfl

theorem encoded_append (cs ds : List Char) : encoded (cs ++ ds) = encoded cs ++ encoded ds :=
  List.flatMap_append

theorem bytes_ofList (cs : List Char) : bytes (String.ofList cs) = encoded cs := by
  rw [bytes, String.toList_ofList, encoded]

/-! ## Nothing is lost -/

theorem lossyChars_utf8EncodeChar_append (c : Char) (bs : List UInt8) :
    lossyChars (String.utf8EncodeChar c ++ bs) = c :: lossyChars bs := by
  obtain ⟨lead, later, he, -⟩ := Rune.utf8EncodeChar_eq_cons c
  have hl := Rune.leading?_eq_some_iff.2 (List.prefix_append (String.utf8EncodeChar c) bs)
  have hs : c.utf8Size - 1 = later.length := by
    rw [← String.length_utf8EncodeChar, he, List.length_cons, Nat.add_sub_cancel]
  rw [he, List.cons_append] at hl ⊢
  rw [lossyChars]
  simp only [hl, hs, List.drop_left]

theorem lossyChars_encoded_append (cs : List Char) (bs : List UInt8) :
    lossyChars (encoded cs ++ bs) = cs ++ lossyChars bs := by
  induction cs with
  | nil => rfl
  | cons c cs ih =>
    rw [encoded_cons, List.append_assoc, lossyChars_utf8EncodeChar_append, ih, List.cons_append]

theorem lossyChars_encoded (cs : List Char) : lossyChars (encoded cs) = cs := by
  rw [← List.append_nil (encoded cs), lossyChars_encoded_append, lossyChars, List.append_nil]

theorem lossy_encoded (cs : List Char) : lossy (encoded cs) = String.ofList cs := by
  rw [lossy, lossyChars_encoded]

theorem head?_encoded (cs : List Char) :
    (encoded cs).head? = some '!'.toUInt8 ↔ cs.head? = some '!' := by
  cases cs with
  | nil => simp [encoded]
  | cons c cs =>
    rw [encoded_cons, List.head?_cons, Option.some.injEq]
    constructor
    · intro h
      -- The byte announces itself alone, and so it is all of the encoding.
      obtain ⟨lead, later, he, ha, -⟩ := Rune.utf8EncodeChar_eq_cons c
      rw [he, List.cons_append, List.head?_cons, Option.some.injEq] at h
      subst h
      have hl : later = [] := by
        rw [Rune.announced_eq_some_iff] at ha
        rw [← List.length_eq_zero_iff]
        have hb : '!'.toUInt8.toNat = 0x21 := rfl
        omega
      have hr := Rune.read_utf8EncodeChar_append c []
      rw [he, hl] at hr
      cases hr
      rfl
    · rintro rfl
      rfl

/-! ## Parts of a text -/

theorem dropBytes?_append (cs ds : List Char) :
    dropBytes? (encoded cs).length (cs ++ ds) = some ds := by
  induction cs with
  | nil => simp [encoded, dropBytes?]
  | cons c cs ih =>
    rw [encoded_cons, List.length_append, String.length_utf8EncodeChar, List.cons_append]
    obtain ⟨n, hn⟩ := Nat.exists_eq_succ_of_ne_zero (Nat.ne_of_gt c.utf8Size_pos)
    rw [hn, Nat.succ_add, dropBytes?, hn, if_pos (by omega)]
    rw [show n + (encoded cs).length + 1 - n.succ = (encoded cs).length by omega, ih]

theorem takeBytes?_append (cs ds : List Char) :
    takeBytes? (encoded cs).length (cs ++ ds) = some cs := by
  induction cs with
  | nil => simp [encoded, takeBytes?]
  | cons c cs ih =>
    rw [encoded_cons, List.length_append, String.length_utf8EncodeChar, List.cons_append]
    obtain ⟨n, hn⟩ := Nat.exists_eq_succ_of_ne_zero (Nat.ne_of_gt c.utf8Size_pos)
    rw [hn, Nat.succ_add, takeBytes?, hn, if_pos (by omega)]
    rw [show n + (encoded cs).length + 1 - n.succ = (encoded cs).length by omega, ih]
    rfl

theorem utf8ByteSize_ofList (cs : List Char) :
    (String.ofList cs).utf8ByteSize = (encoded cs).length := by
  rw [← String.size_toByteArray, String.toByteArray_ofList, List.utf8Encode, List.size_toByteArray,
    encoded]

/-- What is left without `opening` bytes in front and one byte behind, where no character is cut. -/
def inside? (opening : Nat) (text : String) : Option String :=
  slice? text opening (max (text.utf8ByteSize - 1) opening)

theorem inside?_quotes (opening : List Char) (text : String) (close : Char)
    (hc : close.utf8Size = 1) :
    inside? (encoded opening).length (String.ofList (opening ++ text.toList ++ [close])) =
      some text := by
  have hl : (String.ofList (opening ++ text.toList ++ [close])).utf8ByteSize - 1 =
      (encoded opening).length + (encoded text.toList).length := by
    rw [utf8ByteSize_ofList, encoded_append, encoded_append, encoded_cons, List.length_append,
      List.length_append, List.length_append, String.length_utf8EncodeChar, hc]
    have he : (encoded []).length = 0 := rfl
    omega
  rw [inside?, slice?, hl, Nat.max_eq_left (Nat.le_add_right _ _), if_pos (Nat.le_add_right _ _),
    String.toList_ofList, List.append_assoc, dropBytes?_append, Option.bind_some,
    Nat.add_sub_cancel_left, takeBytes?_append]
  exact congrArg some String.ofList_toList

theorem strip_quotes (opening : List Char) (text : String) {close : Char}
    (hc : close.utf8Size = 1) :
    strip (encoded opening).length (String.ofList (opening ++ text.toList ++ [close])) = text := by
  have hs := inside?_quotes opening text close hc
  rw [inside?] at hs
  rw [strip, hs]
  rfl

end ShellTokens.Text
