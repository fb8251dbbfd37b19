/-!
# Parts of a text by byte offset

Offsets count the bytes of the text's UTF-8 encoding. A part exists only if both its ends fall
between characters.
-/

namespace ShellTokens.Text

def dropBytes? : Nat → List Char → Option (List Char)
  | 0, cs => some cs
  | _ + 1, [] => none
  | n + 1, c :: cs => if c.utf8Size ≤ n + 1 then dropBytes? (n + 1 - c.utf8Size) cs else none

def takeBytes? : Nat → List Char → Option (List Char)
  | 0, _ => some []
  | _ + 1, [] => none
  | n + 1, c :: cs =>
    if c.utf8Size ≤ n + 1 then (takeBytes? (n + 1 - c.utf8Size) cs).map (c :: ·) else none

/-- The part of a text from one offset to another that is not before it. -/
def slice? (text : String) (first last : Nat) : Option String :=
  if first ≤ last then
    (dropBytes? first text.toList).bind (takeBytes? (last - first)) |>.map String.ofList
  else none

/-- A text without `opening` bytes in front and one byte behind, or nothing where a character
would be cut. The ends never cross. -/
def strip (opening : Nat) (text : String) : String :=
  (slice? text opening (max (text.utf8ByteSize - 1) opening)).getD ""

end ShellTokens.Text
