/-! # The bytes of a text -/

namespace ShellTokens.Text

/-- The bytes of a text: the UTF-8 encodings of its characters, one after the other. -/
def bytes (text : String) : List UInt8 := text.toList.flatMap String.utf8EncodeChar

theorem bytes_empty : bytes "" = [] := rfl

theorem bytes_newline : bytes "\n" = [0x0A] := rfl

theorem bytes_append (a b : String) : bytes (a ++ b) = bytes a ++ bytes b := by
  simp only [bytes, String.toList_append, List.flatMap_append]

end ShellTokens.Text
