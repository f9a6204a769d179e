import MediaPipeline.Error
import MediaPipeline.FileTree
import MediaPipeline.Id
/-!
# Workspace — where intermediate files are kept

A workspace is a directory of its own with one directory for each session.
Every step writes into the directory of its session, under a name that its
place gives; only the last output is delivered to the user.
-/


namespace MediaPipeline

/-- A workspace, by its directory. -/
structure Workspace where
  root : FilePath
  deriving DecidableEq, Repr, Inhabited

namespace Workspace

/-- A failure of the workspace. -/
def fault {α : Type} (f : ToolFault) : Except Error α := .error (.tool "workspace" f)

/-- The path of a new workspace in a directory for temporary files. The one name
stands for the fresh name that a temporary directory is given: nothing is below it
before the workspace is made, and the name itself is only seen in paths. -/
def inside (scratch : FilePath) : Workspace := ⟨scratch.join ⟨"clipforge-workspace"⟩⟩

/-- The tree with the directory of the workspace. -/
def make (w : Workspace) (t : FileTree) : Except Error FileTree :=
  match t.makeDirectories w.root with
  | (made, none) => .ok made
  | (_, some f) => fault (.noScratch f.message)

/-- The tree without the workspace and all that was left in it. -/
def discard (w : Workspace) (t : FileTree) : FileTree :=
  match t.place w.root with
  | .ok place => t.remove place
  | .error _ => t

/-! ## Outputs of steps -/

/-- The directory of a session. -/
def sessionDirectory (w : Workspace) (session : SessionId) : FilePath :=
  w.root.join ⟨session.display⟩

/-- The name of the output of a step. -/
def outputName (index : Nat) (extension : String) : String :=
  "step-" ++ Text.zeroFilled 2 index ++ "." ++ extension

/-- The path of the output of a step. -/
def outputPath (w : Workspace) (session : SessionId) (index : Nat) (extension : String) :
    FilePath :=
  (w.sessionDirectory session).join ⟨outputName index extension⟩

/-- The path of the output of a step, and the tree with the directory of the
session. -/
def stepOutput (w : Workspace) (t : FileTree) (session : SessionId) (index : Nat)
    (extension : String) : Except Error (FilePath × FileTree) :=
  match t.makeDirectories (w.sessionDirectory session) with
  | (made, none) => .ok (w.outputPath session index extension, made)
  | (_, some f) => .error (.io f.message)

/-- Removes the directory of a session, and counts the files that stood
directly in it. -/
def clear (w : Workspace) (t : FileTree) (session : SessionId) : Except Error (Nat × FileTree) :=
  match t.find (w.sessionDirectory session) with
  | .ok (place, .directory) => .ok ((t.filesIn place).length, t.remove place)
  | .ok (_, .file _ _) => .error (.io FileFault.notDirectory.message)
  | .error .missing => .ok (0, t)
  | .error f => .error (.io f.message)

/-! ## Delivery -/

/-- Renames what stands at a destination, if anything does, by giving it
another extension. -/
def setAside (t : FileTree) (destination : FilePath) (extension : Option String) :
    Except Error FileTree :=
  match extension with
  | none => .ok t
  | some extension =>
    if t.holds destination then
      match t.rename destination (destination.withExtension extension) with
      | .ok renamed => .ok renamed
      | .error f => fault (.noBackup f.message)
    else .ok t

/-- Moves a file to its destination, by copying it if it cannot be
renamed. -/
def transfer (t : FileTree) (source destination : FilePath) : Except Error FileTree :=
  match t.rename source destination with
  | .ok renamed => .ok renamed
  | .error _ =>
    match t.copy source destination with
    | .ok copied => .ok copied
    | .error f => fault (.noCopy f.message)

/-- Delivers an output to its destination. With an extension for a backup,
what stands there is set aside first, and stays aside if the transfer
fails. -/
def deliver (t : FileTree) (source destination : FilePath) (backup : Option String) :
    Except Error FilePath × FileTree :=
  if !t.holds source then (fault (.noOutput source.text), t)
  else
    match setAside t destination backup with
    | .error e => (.error e, t)
    | .ok aside =>
      match transfer aside source destination with
      | .error e => (.error e, aside)
      | .ok after => (.ok destination, after)

end Workspace

end MediaPipeline
