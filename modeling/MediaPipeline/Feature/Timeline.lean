import MediaPipeline.Feature.Basic
/-!
# Feature/Timeline — what part of the time is kept

`trim` keeps the part between two points in time, given in seconds.
-/


namespace MediaPipeline

namespace Timeline

/-- The point in time at a path, in seconds, which is not negative. -/
def seconds (c : Configuration) (path : String) : Except Error Float := do
  let x ← c.number path
  if x < 0.0 then Configuration.blame path (.negativeTime x) else .ok x

/-- Two points in time. -/
structure Span where
  start : Float
  stop : Float

/-- The settings that a configuration gives to `trim`. -/
def parseSpan (c : Configuration) : Except Error Span := do
  let start ← seconds c "TRIM.START"
  let stop ← seconds c "TRIM.END"
  .ok ⟨start, stop⟩

/-- The command of `trim`, unless the start is not before the end. -/
def synthesizeSpan (s : Span) : Except Error Command :=
  if s.start ≥ s.stop then .error (.invariant "Trim" (.startNotBeforeEnd s.start s.stop))
  else .ok ⟨["-ss", Decimal.plain s.start, "-to", Decimal.plain s.stop], none⟩

/-- Keeps the part between two points in time. -/
def trim : Schema where
  Settings := Span
  paths := ["TRIM.START", "TRIM.END"]
  parse := parseSpan
  synthesize := synthesizeSpan

end Timeline

end MediaPipeline
