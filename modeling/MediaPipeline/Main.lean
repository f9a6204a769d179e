import MediaPipeline.CommandLine.Jobs
/-!
# Main — the program

The files that the arguments and the settings name are loaded into a file
tree, the answer is worked out over it, and what it tells is printed. The
program starts no other programs: a tool is only looked for where the
settings say, and a run goes no further than its first invocation.
-/


namespace MediaPipeline

namespace Main

/-- The files of an order that are read. -/
def filesToRead (o : CommandLine.Order) : List FilePath :=
  o.settings.toList ++
    match o.job with
    | .compile t => t.steps.toList
    | .run t _ _ => t.steps.toList
    | .validate file => file.toList
    | _ => []

/-- The files of an order that only have to be there. -/
def filesToFind (o : CommandLine.Order) (s : Settings) : List FilePath :=
  let tools := s.engine.ffmpegPath.toList ++ s.engine.ffprobePath.toList
  match o.job with
  | .run _ inputs _ => inputs ++ tools
  | .checkTools => tools
  | _ => []

/-- The tree with something at a path, if it can stand there. -/
def planted (t : FileTree) (p : FilePath) (n : FileNode) : FileTree :=
  (t.plant p n).toOption.getD t

/-- Loads what stands at a path: the content of a file, a directory if it
cannot be read, and nothing if nothing is there. -/
def load (t : FileTree) (p : FilePath) : IO FileTree := do
  try
    let content ← IO.FS.readBinFile p.text
    return planted t p (.file content.toList false)
  catch e =>
    match e with
    | .noFileOrDirectory _ _ _ => return t
    | _ => return planted t p .directory

/-- Notes that something stands at a path, if it does. -/
def note (t : FileTree) (p : FilePath) : IO FileTree := do
  try
    IO.FS.withFile p.text .read fun _ => return planted t p (.file [] false)
  catch _ => return t

/-- The host that an order needs. -/
def hostFor (o : CommandLine.Order) : IO Host := do
  let loaded ← (filesToRead o).foldlM load {}
  let text := o.settings.bind fun p => (loaded.readText p).toOption
  let files ← (filesToFind o (.ofTextOrDefault text)).foldlM note loaded
  return { files := files }

/-- The host that arguments need. -/
def host (args : List String) : IO Host := do
  match CommandLine.read args with
  | .ok order => hostFor order
  | .error _ => return {}

end Main

end MediaPipeline

/-- Answers the arguments on the standard streams and ends with the exit
code. -/
def main (args : List String) : IO UInt32 := do
  let outcome := MediaPipeline.CommandLine.respond args (← MediaPipeline.Main.host args)
  outcome.lines.forM fun line => IO.println line.text
  if outcome.complaint != "" then IO.eprintln outcome.complaint
  return outcome.exitCode.toUInt32
