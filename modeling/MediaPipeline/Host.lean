import MediaPipeline.FileTree
/-!
# Host — the machine that programs run on

A host has a file tree, directories that are searched for programs, and
programs that behave in some way for each list of arguments. To run a program
is to find it, and then to take over what it wrote.
-/


namespace MediaPipeline

/-- How a program ended, if it did. -/
inductive Ending where
  | exited (code : Nat)
  | killed (signal : Nat)
  | hanging
  deriving DecidableEq, Repr, Inhabited

namespace Ending

/-- The names of the signals from the first on. -/
def signalNames : List String :=
  ["SIGHUP", "SIGINT", "SIGQUIT", "SIGILL", "SIGTRAP", "SIGABRT", "SIGBUS", "SIGFPE", "SIGKILL",
    "SIGUSR1", "SIGSEGV", "SIGUSR2", "SIGPIPE", "SIGALRM", "SIGTERM", "SIGSTKFLT", "SIGCHLD",
    "SIGCONT", "SIGSTOP", "SIGTSTP", "SIGTTIN", "SIGTTOU", "SIGURG", "SIGXCPU", "SIGXFSZ",
    "SIGVTALRM", "SIGPROF", "SIGWINCH", "SIGIO", "SIGPWR", "SIGSYS"]

/-- The name of a signal. -/
def signalName? : Nat → Option String
  | 0 => none
  | n + 1 => signalNames[n]?

/-- An ending as a status. -/
def text : Ending → String
  | .exited code => s!"exit status: {code}"
  | .killed signal =>
    match signalName? signal with
    | some name => s!"signal: {signal} ({name})"
    | none => s!"signal: {signal}"
  | .hanging => "not ended"

/-- Whether a program ended as one that succeeded. -/
def isSuccess (e : Ending) : Bool := e == .exited 0

end Ending

/-- What a program does: what it writes to its two streams and to files, and
how it ends. -/
structure Conduct where
  output : List UInt8 := []
  diagnostics : List UInt8 := []
  writes : List (FilePath × List UInt8) := []
  ending : Ending := .exited 0
  deriving Inhabited

/-- A machine. The conduct of a program depends on where it stands and on its
arguments. -/
structure Host where
  files : FileTree := {}
  searchPath : List FilePath := []
  scratch : FilePath := ⟨"/tmp"⟩
  processors : Nat := 1
  conduct : Place → List String → Conduct := fun _ _ => {}

namespace Host

/-- The place of the executable file that a path leads to. -/
def executable (h : Host) (p : FilePath) : Except FileFault Place := do
  match ← h.files.find p with
  | (place, .file _ true) => .ok place
  | _ => .error .denied

/-- The first executable file with a name in directories. One that is there
but not executable is told apart from none at all. -/
def search (h : Host) (name : FilePath) (denied : Bool) : List FilePath → Except FileFault Place
  | [] => .error (if denied then .denied else .missing)
  | directory :: rest =>
    match h.executable (directory.join name) with
    | .ok place => .ok place
    | .error .denied => h.search name true rest
    | .error _ => h.search name denied rest

/-- The place of a program. A name without a slash is searched for. -/
def program (h : Host) (p : FilePath) : Except FileFault Place :=
  if p.text = "" then .error .missing
  else if p.text.toList.contains '/' then h.executable p
  else if p.text.utf8ByteSize > FileTree.maxNameBytes then .error .tooLong
  else h.search p false h.searchPath

/-- The path of the first executable file with a name on the search path. -/
def which? (h : Host) (name : String) : Option FilePath :=
  (h.searchPath.map (·.join ⟨name⟩)).find? fun p => (h.executable p).toBool

/-- The tree after files were written, as far as they could be. -/
def takeOver (t : FileTree) (writes : List (FilePath × List UInt8)) : FileTree :=
  writes.foldl (fun t w => (t.write w.1 w.2).toOption.getD t) t

/-- What a program does with arguments, and the host after it. -/
def perform (h : Host) (p : FilePath) (args : List String) :
    Except FileFault (Conduct × Host) := do
  if (p.text :: args).any FileTree.holdsNul then .error .nulInArgument
  else
    let conduct := h.conduct (← h.program p) args
    .ok (conduct, { h with files := takeOver h.files conduct.writes })

end Host

end MediaPipeline
