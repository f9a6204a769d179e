import MediaPipeline.Text.Unassigned
import MediaPipeline.Text.Unseen
/-!
# Text/Quoted — texts in double quotes

A text in double quotes shows every character of it: double quotes and
backslashes stand behind a backslash, the usual controls have letters, and
what leaves no mark or is no character is shown by its number. A single quote
ends nothing and stands for itself.
-/


namespace MediaPipeline

namespace Text

/-- A character by its number in hexadecimal digits. -/
def byNumber (c : Char) : List Char :=
  ['\\', 'u', '\x7b'] ++ Nat.toDigits 16 c.toNat ++ ['\x7d']

/-- A character as it stands in a quoted text. -/
def shownChar (c : Char) : List Char :=
  match c with
  | '\x00' => ['\\', '0']
  | '\t' => ['\\', 't']
  | '\r' => ['\\', 'r']
  | '\n' => ['\\', 'n']
  | '"' => ['\\', '"']
  | '\\' => ['\\', '\\']
  | c => if isUnseen c || isUnassigned c then byNumber c else [c]

/-- A text in double quotes. -/
def quoted (s : String) : String := "\"" ++ String.ofList (s.toList.flatMap shownChar) ++ "\""

end Text

end MediaPipeline
