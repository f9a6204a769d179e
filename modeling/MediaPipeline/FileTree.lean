import MediaPipeline.FilePath
import MediaPipeline.Text.Utf8
/-!
# FileTree — what stands where in a file system

A file tree says what stands at each place: a directory, or a file with its
bytes. A path leads to a place piece by piece, and only through directories
that are there. An operation that cannot be done gives its cause, in the
words of the operating system, and leaves the tree as it was, except that
directories made on the way to another stay.
-/


namespace MediaPipeline

/-- Why a file operation cannot be done. -/
inductive FileFault where
  | missing
  | denied
  | busy
  | occupied
  | notDirectory
  | isDirectory
  | invalid
  | tooLong
  | notEmpty
  | notRegular
  | notText
  | nulInPath
  | nulInArgument
  deriving DecidableEq, Repr

/-- The words of the operating system for a fault. -/
def FileFault.message : FileFault → String
  | .missing => "No such file or directory (os error 2)"
  | .denied => "Permission denied (os error 13)"
  | .busy => "Device or resource busy (os error 16)"
  | .occupied => "File exists (os error 17)"
  | .notDirectory => "Not a directory (os error 20)"
  | .isDirectory => "Is a directory (os error 21)"
  | .invalid => "Invalid argument (os error 22)"
  | .tooLong => "File name too long (os error 36)"
  | .notEmpty => "Directory not empty (os error 39)"
  | .notRegular => "the source path is neither a regular file nor a symlink to a regular file"
  | .notText => "stream did not contain valid UTF-8"
  | .nulInPath => "file name contained an unexpected NUL byte"
  | .nulInArgument => "nul byte found in provided data"

/-- A place, by the names that lead to it from the root. -/
abbrev Place := List String

/-- What stands at a place. -/
inductive FileNode where
  | directory
  | file (content : List UInt8) (executable : Bool)
  deriving DecidableEq, Repr, Inhabited

/-- The directories and files of a file system, and the place where relative
paths start. -/
structure FileTree where
  entries : List (Place × FileNode) := []
  start : Place := []
  deriving Inhabited

namespace FileTree

/-! ## Places -/

/-- What stands at a place. The root is always a directory. -/
def node? (t : FileTree) (p : Place) : Option FileNode :=
  if p = [] then some .directory else t.entries.lookup p

/-- The tree with something else at a place. -/
def put (t : FileTree) (p : Place) (n : FileNode) : FileTree :=
  { t with entries := (p, n) :: t.entries.filter fun e => e.1 != p }

/-- The tree without a place and all that is below it. -/
def remove (t : FileTree) (p : Place) : FileTree :=
  { t with entries := t.entries.filter fun e => !p.isPrefixOf e.1 }

/-- What is below a place, by the names that lead to it from there. -/
def below (t : FileTree) (p : Place) : List (Place × FileNode) :=
  (t.entries.filter fun e => p.isPrefixOf e.1 && e.1 != p).map fun e =>
    (e.1.drop p.length, e.2)

/-- The tree with a place, and all that is below it, moved to another. -/
def move (t : FileTree) (p q : Place) : FileTree :=
  let moved := (t.entries.filter fun e => p.isPrefixOf e.1).map fun e =>
    (q ++ e.1.drop p.length, e.2)
  { t with entries := moved ++ ((t.remove p).remove q).entries }

/-! ## Paths -/

/-- How many bytes the name of a file may take. -/
def maxNameBytes : Nat := 255

/-- How many bytes a path may take. -/
def maxPathBytes : Nat := 4095

/-- Whether a text holds the character that ends a text for the operating
system. -/
def holdsNul (s : String) : Bool := s.toList.contains '\x00'

/-- Whether a path asks for a directory by its last slash. -/
def asksForDirectory (p : FilePath) : Bool := p.text.toList.getLast? == some '/'

/-- The pieces of a path without the slashes at its end. -/
def piecesOf (p : FilePath) : List String :=
  ((Text.pieces '/' p.text).reverse.dropWhile (· == "")).reverse

/-- Whether a piece of a path is a name, and not a way to stay or to go
up. -/
def isName (piece : String) : Bool := !FilePath.isIdle piece && piece != ".."

/-- Refuses a path that leads nowhere in any tree. -/
def checkPath (p : FilePath) : Except FileFault Unit :=
  if holdsNul p.text then .error .nulInPath
  else if p.text = "" then .error .missing
  else if p.text.utf8ByteSize > maxPathBytes then .error .tooLong
  else .ok ()

/-- Refuses to look into anything but a directory. -/
def enter (t : FileTree) (here : Place) : Except FileFault Unit :=
  match t.node? here with
  | none => .error .missing
  | some (.file _ _) => .error .notDirectory
  | some .directory => .ok ()

/-- The place that a piece of a path leads to from another place. -/
def step (t : FileTree) (here : Place) (piece : String) : Except FileFault Place := do
  t.enter here
  if FilePath.isIdle piece then .ok here
  else if piece = ".." then .ok here.dropLast
  else if piece.utf8ByteSize > maxNameBytes then .error .tooLong
  else .ok (here ++ [piece])

/-- The place where a path starts. -/
def origin (t : FileTree) (p : FilePath) : Place := if p.isAbsolute then [] else t.start

/-- The place that a path leads to. All directories on the way must be there;
at the place itself there may be nothing. -/
def place (t : FileTree) (p : FilePath) : Except FileFault Place := do
  checkPath p
  (piecesOf p).foldlM t.step (t.origin p)

/-- The place before the last piece of a path, which must be a directory, and
the last piece if it is a name. -/
def lastEntry (t : FileTree) (p : FilePath) : Except FileFault (Place × Option String) := do
  checkPath p
  match (piecesOf p).reverse with
  | [] => .ok ([], none)
  | last :: before =>
    let here ← before.reverse.foldlM t.step (t.origin p)
    t.enter here
    .ok (here, if isName last then some last else none)

/-- The place that a path leads to and what stands there. -/
def find (t : FileTree) (p : FilePath) : Except FileFault (Place × FileNode) := do
  let place ← t.place p
  match t.node? place with
  | none => .error .missing
  | some (.file content executable) =>
    if asksForDirectory p then .error .notDirectory
    else .ok (place, .file content executable)
  | some .directory => .ok (place, .directory)

/-- Whether anything stands where a path leads to. -/
def holds (t : FileTree) (p : FilePath) : Bool := (t.find p).toBool

/-- Whether a path leads to a directory. -/
def isDirectory (t : FileTree) (p : FilePath) : Bool :=
  match t.find p with
  | .ok (_, .directory) => true
  | _ => false

/-! ## Reading and writing -/

/-- The text of a file. -/
def readText (t : FileTree) (p : FilePath) : Except FileFault String := do
  match (← t.find p).2 with
  | .directory => .error .isDirectory
  | .file content _ =>
    match Text.Utf8.decode? content with
    | some text => .ok text
    | none => .error .notText

/-- The place of a file that is about to be written. -/
def target (t : FileTree) (p : FilePath) : Except FileFault Place := do
  match ← t.lastEntry p with
  | (_, none) => .error .isDirectory
  | (here, some name) =>
    if asksForDirectory p then .error .isDirectory
    else
      let place ← t.step here name
      if t.node? place = some .directory then .error .isDirectory else .ok place

/-- The tree with a file that has the given content; a file that was there
stays executable if it was. -/
def write (t : FileTree) (p : FilePath) (content : List UInt8) : Except FileFault FileTree := do
  let place ← t.target p
  match t.node? place with
  | some (.file _ executable) => .ok (t.put place (.file content executable))
  | _ => .ok (t.put place (.file content false))

/-- The tree with the content of one file copied to another. -/
def copy (t : FileTree) (p q : FilePath) : Except FileFault FileTree := do
  match (← t.find p).2 with
  | .directory => .error .notRegular
  | .file content executable =>
    let place ← t.target q
    .ok (t.put place (.file content executable))

/-- The tree with what stands at one place renamed to another. A file may
replace a file, and a directory an empty directory. -/
def replace (t : FileTree) (source place : Place) (node : FileNode) :
    Except FileFault FileTree :=
  match node, t.node? place with
  | .file _ _, some .directory => .error .isDirectory
  | .directory, some (.file _ _) => .error .notDirectory
  | .directory, some .directory =>
    if (t.below place).isEmpty then .ok (t.move source place) else .error .notEmpty
  | _, _ => .ok (t.move source place)

/-- The tree with a file or directory renamed. Both paths must end in a name,
a directory cannot go below itself, and only a directory may be asked for by a
slash. -/
def rename (t : FileTree) (p q : FilePath) : Except FileFault FileTree := do
  match ← t.lastEntry p, ← t.lastEntry q with
  | (here, some name), (there, some newName) =>
    let source ← t.step here name
    match t.node? source with
    | none => .error .missing
    | some node =>
      let place ← t.step there newName
      if node ≠ .directory ∧ (asksForDirectory p || asksForDirectory q) then .error .notDirectory
      else if source.isPrefixOf there then .error .invalid
      else if place.isPrefixOf here then .error .notEmpty
      else if source = place then .ok t
      else t.replace source place node
  | _, _ => .error .busy

/-! ## Directories -/

/-- The tree with a directory, in one that is there. -/
def makeDirectory (t : FileTree) (p : FilePath) : Except FileFault FileTree := do
  match ← t.lastEntry p with
  | (_, none) => .error .occupied
  | (here, some name) =>
    let place ← t.step here name
    match t.node? place with
    | none => .ok (t.put place .directory)
    | some _ => .error .occupied

/-- The tree with the directories at some paths, each of which lies in the one
after it, and the reason why the first could not be made, if it could not. It
is made alone if that can be done. -/
def makeChain (t : FileTree) : List FilePath → FileTree × Option FileFault
  | [] => (t, none)
  | p :: above =>
    match t.makeDirectory p with
    | .ok made => (made, none)
    | .error .missing =>
      match t.makeChain above with
      | (base, some f) => (base, some f)
      | (base, none) =>
        match base.makeDirectory p with
        | .ok made => (made, none)
        | .error f => (base, if f = .occupied ∧ base.isDirectory p then none else some f)
    | .error f => (t, if t.isDirectory p then none else some f)

/-- The tree with a directory, and all directories on the way to it. Those
that were made stay if the directory itself cannot be made. -/
def makeDirectories (t : FileTree) (p : FilePath) : FileTree × Option FileFault :=
  t.makeChain (p.ancestors p.text.length)

/-- The tree with something at a path, in directories that are made for
it. -/
def plant (t : FileTree) (p : FilePath) (n : FileNode) : Except FileFault FileTree := do
  let (made, _) := t.makeDirectories p.parent
  .ok (made.put (← made.place p) n)

/-- The names of the files that stand directly in a directory. -/
def filesIn (t : FileTree) (p : Place) : List String :=
  (t.below p).filterMap fun
    | ([name], .file _ _) => some name
    | _ => none

end FileTree

end MediaPipeline
