import MediaPipeline.Error
import MediaPipeline.Host
/-!
# Invocation — one call of a tool

A program, its arguments and a time limit. An invocation is written as a line
that can be copied: an argument that is empty or has blanks in it stands in
single quotes. A tool that fails is quoted with the last lines of its
diagnostics, where the reason stands.
-/


namespace MediaPipeline

/-- A program, its arguments, and the milliseconds it may take. -/
structure Invocation where
  program : FilePath
  args : List String := []
  limitMs : Nat := 3600000
  deriving DecidableEq, Repr, Inhabited

/-- What a tool that succeeded left behind. -/
structure ToolOutput where
  ending : Ending
  output : String
  diagnostics : String
  deriving DecidableEq, Repr, Inhabited

namespace Invocation

/-- An argument as it stands in the written line. -/
def quoted (arg : String) : String :=
  if arg = "" || arg.toList.any Text.isBlank then "'" ++ arg ++ "'" else arg

/-- The line that writes an invocation. -/
def text (i : Invocation) : String :=
  String.intercalate " " (i.program.text :: i.args.map quoted)

/-- The name of the tool: that of its program without an extension. -/
def toolName (i : Invocation) : String := i.program.stem?.getD i.program.text

/-- How many of the last lines of the diagnostics are quoted. -/
def quotedLines : Nat := 3

/-- The last lines of diagnostics that say something. -/
def lastLines (diagnostics : String) : List String :=
  let said := ((Text.lines diagnostics).map Text.trim).filter (· ≠ "")
  said.drop (said.length - quotedLines)

/-- A failure of the tool. -/
def fault (i : Invocation) (f : ToolFault) : Error := .tool i.toolName f

/-- Whether a tool runs out of time: one that hangs does, and so does any tool
that has no time at all. -/
def isTooLate (i : Invocation) (c : Conduct) : Bool := c.ending == .hanging || i.limitMs == 0

/-- What becomes of a tool that was started. -/
def judge (i : Invocation) (c : Conduct) : Except Error ToolOutput :=
  let diagnostics := Text.Utf8.decodeLossy c.diagnostics
  if i.isTooLate c then .error (i.fault (.outOfTime (i.limitMs / 1000)))
  else if c.ending.isSuccess then
    .ok ⟨c.ending, Text.Utf8.decodeLossy c.output, diagnostics⟩
  else .error (i.fault (.failed c.ending.text (lastLines diagnostics)))

/-- Runs the tool on a host. -/
def run (i : Invocation) (h : Host) : Except Error ToolOutput × Host :=
  match h.perform i.program i.args with
  | .error f => (.error (i.fault (.notStarted f.message)), h)
  | .ok (conduct, after) => (i.judge conduct, after)

end Invocation

end MediaPipeline
