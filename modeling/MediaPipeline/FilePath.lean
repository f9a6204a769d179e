import MediaPipeline.Text
/-!
# FilePath — names, stems and extensions

A path is a text whose pieces stand between slashes. Empty pieces and pieces
that are a single dot say nothing, except a dot at the very start and the
root. The name of a path is its last piece that says something, unless that
piece leads upwards.
-/


namespace MediaPipeline

/-- A path of the file system. -/
structure FilePath where
  text : String
  deriving DecidableEq, Repr, Inhabited

namespace FilePath

/-- Whether a path starts at the root. -/
def isAbsolute (p : FilePath) : Bool := p.text.toList.head? == some '/'

/-- Whether a piece says nothing about where a path leads. -/
def isIdle (piece : String) : Bool := piece == "" || piece == "."

/-- The pieces of a path, given with the last one first, from the last one
that leads somewhere on. -/
def dropIdle (reversed : List String) : List String := reversed.dropWhile isIdle

/-- The name of the file that a path leads to. -/
def fileName? (p : FilePath) : Option String :=
  match dropIdle (Text.pieces '/' p.text).reverse with
  | [] => none
  | piece :: _ => if piece == ".." then none else some piece

/-- A name cut at its last dot; a name with no dot, or with one at its start
only, has no extension. -/
def splitName (name : String) : String × Option String :=
  let reversed := name.toList.reverse
  match reversed.dropWhile (· != '.') with
  | [] => (name, none)
  | _ :: stem =>
    if stem.isEmpty then (name, none)
    else
      (String.ofList stem.reverse,
        some (String.ofList (reversed.takeWhile (· != '.')).reverse))

/-- The name of a path without its extension. -/
def stem? (p : FilePath) : Option String := p.fileName?.map fun name => (splitName name).1

/-- The extension of a path, without its dot. -/
def extension? (p : FilePath) : Option String := p.fileName?.bind fun name => (splitName name).2

/-- The text of the pieces up to the last one that says something, given with
the last one first. The root is kept, and so is a dot at the very start. -/
def upTo (absolute : Bool) (reversed : List String) : String :=
  match dropIdle reversed with
  | [] => if absolute then "/" else if reversed.getLast? == some "." then "." else ""
  | kept => String.intercalate "/" kept.reverse

/-- Another path, taken as seen from this one. -/
def join (p q : FilePath) : FilePath :=
  if q.isAbsolute || p.text == "" then q
  else if p.text.toList.getLast? == some '/' then ⟨p.text ++ q.text⟩
  else ⟨p.text ++ "/" ++ q.text⟩

/-- The path without its last piece that says something. -/
def parent (p : FilePath) : FilePath :=
  ⟨upTo p.isAbsolute ((dropIdle (Text.pieces '/' p.text).reverse).drop 1)⟩

/-- The path and those above it, at most `n` in all, up to one that names
nothing or the root. -/
def ancestors : Nat → FilePath → List FilePath
  | 0, _ => []
  | n + 1, p => if p.text == "" || p.text == "/" then [] else p :: ancestors n p.parent

/-- The path with another file name; a path without one gets the name
added. -/
def withFileName (p : FilePath) (name : String) : FilePath :=
  if p.fileName?.isSome then p.parent.join ⟨name⟩ else p.join ⟨name⟩

/-- The path with another extension, which may be empty; a path without a
file name stays as it is. The old extension goes first, and where only two
dots are left of the last piece, it leads upwards and takes no extension. -/
def withExtension (p : FilePath) (extension : String) : FilePath :=
  let reversed := (Text.pieces '/' p.text).reverse
  match p.fileName?, dropIdle reversed with
  | some name, _ :: before =>
    let stem := (splitName name).1
    let renamed :=
      if stem == "." && reversed.head? == some name then ".."
      else if extension == "" then stem
      else stem ++ "." ++ extension
    ⟨String.intercalate "/" (renamed :: before).reverse⟩
  | _, _ => p

end FilePath

end MediaPipeline
