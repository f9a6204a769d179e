import MediaPipeline.Text.Ranges
/-!
# Text — blanks, pieces, words and lines

How a text is taken apart. A *piece* is what stands between two separators,
and pieces keep the empty ones, so a text has one piece more than it has
separators; a *word* is a piece between blanks, and words drop the empty
ones. A blank is a character of Unicode's white-space class.
-/


namespace MediaPipeline

namespace Text

/-! ## Blanks -/

/-- The code points of Unicode's white-space class, as inclusive ranges in
ascending order. -/
def blankRanges : List (Nat × Nat) :=
  [(0x09, 0x0d), (0x20, 0x20), (0x85, 0x85), (0xa0, 0xa0), (0x1680, 0x1680),
   (0x2000, 0x200a), (0x2028, 0x2029), (0x202f, 0x202f), (0x205f, 0x205f),
   (0x3000, 0x3000)]

/-- Whether a character is white space. -/
def isBlank (c : Char) : Bool := isInRanges blankRanges c

/-- Whether a text holds nothing but white space. -/
def isBlankText (s : String) : Bool := s.toList.all isBlank

/-- The text without the white space at either end. -/
def trim (s : String) : String :=
  String.ofList (((s.toList.dropWhile isBlank).reverse.dropWhile isBlank).reverse)

/-! ## Pieces -/

/-- The runs between the characters that satisfy `p`, empty ones kept. -/
def runsBy (p : Char → Bool) : List Char → List (List Char)
  | [] => [[]]
  | c :: cs =>
    if p c then [] :: runsBy p cs
    else
      match runsBy p cs with
      | [] => [[c]]
      | run :: runs => (c :: run) :: runs

theorem runsBy_ne_nil (p : Char → Bool) (cs : List Char) : runsBy p cs ≠ [] := by
  cases cs with
  | nil => simp [runsBy]
  | cons c cs =>
    simp only [runsBy]
    split
    · simp
    · split <;> simp

/-- The pieces of a text between the separators `sep`, empty ones kept. -/
def pieces (sep : Char) (s : String) : List String :=
  (runsBy (· == sep) s.toList).map String.ofList

theorem pieces_ne_nil (sep : Char) (s : String) : pieces sep s ≠ [] := by
  simp [pieces, runsBy_ne_nil]

/-- The words of a text: its non-empty pieces between blanks. -/
def words (s : String) : List String :=
  ((runsBy isBlank s.toList).filter (!·.isEmpty)).map String.ofList

/-- The text before the first separator and the text after it, where the
separator occurs. -/
def cutAt? (sep : Char) (s : String) : Option (String × String) :=
  match s.toList.dropWhile (· != sep) with
  | [] => none
  | _ :: after => some (String.ofList (s.toList.takeWhile (· != sep)), String.ofList after)

/-! ## Lines -/

/-- The line without the carriage return that ends it, where one does. -/
def dropReturn (line : List Char) : List Char :=
  match line.reverse with
  | '\r' :: rest => rest.reverse
  | _ => line

/-- A line that was ended loses one carriage return, and nothing after the
last line feed is no line. -/
def endLines : List (List Char) → List (List Char)
  | [] => []
  | [last] => if last.isEmpty then [] else [last]
  | line :: next :: more => dropReturn line :: endLines (next :: more)

/-- The lines of a text, each ended by a line feed or by a carriage return
and a line feed; the last line may lack its end. -/
def lines (s : String) : List String :=
  (endLines (runsBy (· == '\n') s.toList)).map String.ofList

/-! ## Digits -/

/-- Whether a character is an ASCII digit. -/
def isDigit (c : Char) : Bool := decide ('0' ≤ c) && decide (c ≤ '9')

/-- The number an ASCII digit stands for. -/
def digitValue (c : Char) : Nat := c.toNat - '0'.toNat

/-- The number that a run of ASCII digits writes in base ten. -/
def naturalOf (digits : List Char) : Nat :=
  digits.foldl (fun n c => 10 * n + digitValue c) 0

/-- The number of a hexadecimal digit of either case. -/
def hexValue? (c : Char) : Option Nat :=
  if isDigit c then some (digitValue c)
  else if 'a' ≤ c ∧ c ≤ 'f' then some (c.toNat - 'a'.toNat + 10)
  else if 'A' ≤ c ∧ c ≤ 'F' then some (c.toNat - 'A'.toNat + 10)
  else none

/-- A natural number in base ten with at least `width` digits, filled up with
zeros on the left. -/
def zeroFilled (width n : Nat) : String :=
  let digits := (toString n).toList
  String.ofList (List.replicate (width - digits.length) '0' ++ digits)

end Text

end MediaPipeline
