import MediaPipeline.Feature.Basic
/-!
# Feature/Verbatim — arguments as the user writes them

`customRun` hands the words of a text to the transcoder as they are. Inputs,
outputs and what happens to an existing output are for the engine to say, so
arguments that would say it are refused; quotes mean nothing.
-/


namespace MediaPipeline

namespace Verbatim

/-- The arguments that only the engine gives. -/
def managed : List String := ["-i", "-y", "-n"]

/-- The words that a configuration gives to `customRun`; there is at least
one. -/
def parseWords (c : Configuration) : Except Error (List String) := do
  let text ← c.text "CUSTOM_RUN"
  match Text.words text with
  | [] => Configuration.blame "CUSTOM_RUN" .noArguments
  | args => .ok args

/-- The command of the given words, unless one of them is for the engine. -/
def synthesizeWords (args : List String) : Except Error Command :=
  match args.find? (managed.contains ·) with
  | some arg => .error (.invariant "Custom Run" (.managedArgument arg))
  | none => .ok ⟨args, none⟩

/-- Hands the words of a text to the transcoder. -/
def customRun : Schema where
  Settings := List String
  paths := ["CUSTOM_RUN"]
  parse := parseWords
  synthesize := synthesizeWords

end Verbatim

end MediaPipeline
