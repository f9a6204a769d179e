import MediaPipeline.Text
/-!
# Id — names of sessions and artifacts

An id is 128 bits, written as thirty-two hexadecimal digits in groups of
eight, four, four, four and twelve. It is read with the hyphens or without
them, and with them also in braces or behind a mark that tells what it is.
Digits and mark may be in any letter case.
-/


namespace MediaPipeline

/-- A universally unique id, by its thirty-two hexadecimal digits. -/
structure Id where
  value : BitVec 128
  deriving DecidableEq, Repr, Inhabited

namespace Id

/-- The digits of an id, in lower case. -/
def digits (id : Id) : List Char :=
  (List.range 32).map fun i => Nat.digitChar (id.value.toNat / Nat.pow 16 (31 - i) % 16)

/-- The lengths of the groups that hyphens separate. -/
def groups : List Nat := [8, 4, 4, 4, 12]

/-- A run of digits cut into groups of the given lengths. -/
def grouped : List Nat → List Char → List (List Char)
  | [], _ => []
  | n :: ns, cs => cs.take n :: grouped ns (cs.drop n)

/-- The id with hyphens between its groups. -/
def hyphenated (id : Id) : String :=
  String.intercalate "-" ((grouped groups id.digits).map String.ofList)

/-- The id that thirty-two hexadecimal digits write. -/
def ofDigits? (cs : List Char) : Option Id := do
  guard (cs.length = 32)
  let values ← cs.mapM Text.hexValue?
  some ⟨BitVec.ofNat 128 (values.foldl (fun n d => 16 * n + d) 0)⟩

/-- The id that five groups of digits write. -/
def ofGroups? (s : List Char) : Option Id :=
  let parts := Text.runsBy (· == '-') s
  if parts.map List.length = groups then ofDigits? parts.flatten else none

/-- The id that a text writes in any of the accepted forms. -/
def parse? (s : String) : Option Id :=
  let cs := s.toList
  let mark := "urn:uuid:".toList
  if cs.length = 32 then ofDigits? cs
  else if cs.length = 36 then ofGroups? cs
  else if cs.length = 38 then
    if cs.head? = some '\x7b' ∧ cs.getLast? = some '\x7d' then
      ofGroups? ((cs.drop 1).take 36)
    else none
  else if cs.length = 45 ∧ mark.isPrefixOf (cs.map Char.toLower) then
    ofGroups? (cs.drop mark.length)
  else none

end Id

/-- The id of a session. -/
structure SessionId where
  id : Id
  deriving DecidableEq, Repr, Inhabited

/-- The id of an artifact. -/
structure ArtifactId where
  id : Id
  deriving DecidableEq, Repr, Inhabited

/-- The id of a session with its kind before it. -/
def SessionId.display (s : SessionId) : String := "session-" ++ s.id.hyphenated

/-- The kind and the first eight digits. -/
def SessionId.short (s : SessionId) : String :=
  "session-" ++ String.ofList (s.id.digits.take 8)

/-- The id of an artifact with its kind before it. -/
def ArtifactId.display (a : ArtifactId) : String := "artifact-" ++ a.id.hyphenated

/-- The kind and the first eight digits. -/
def ArtifactId.short (a : ArtifactId) : String :=
  "artifact-" ++ String.ofList (a.id.digits.take 8)

end MediaPipeline
