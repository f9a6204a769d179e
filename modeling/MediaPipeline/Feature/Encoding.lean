import MediaPipeline.Feature.Basic
/-!
# Feature/Encoding — how the output is written

`compress` encodes the picture again at a constant quality, and `convert`
writes another container.
-/


namespace MediaPipeline

namespace Encoding

/-! ## Compress -/

/-- The greatest rate factor, which is the lowest quality. -/
def maxRateFactor : Nat := 51

/-- The presets, from the fastest to the slowest. -/
def presets : List String :=
  ["ultrafast", "superfast", "veryfast", "faster", "fast", "medium", "slow", "slower",
   "veryslow"]

/-- The preset where none is given. -/
def defaultPreset : String := "medium"

/-- A rate factor and a preset. -/
structure Quality where
  rateFactor : Nat
  preset : String
  deriving DecidableEq, Repr

/-- The settings that a configuration gives to `compress`. -/
def parseQuality (c : Configuration) : Except Error Quality := do
  let rateFactor ← c.natural "COMPRESS.CRF"
  if maxRateFactor < rateFactor then
    Configuration.blame "COMPRESS.CRF" (.rateOutOfRange maxRateFactor rateFactor)
  else
    let given ← c.optional "COMPRESS.PRESET" Configuration.text
    let preset := given.getD defaultPreset
    if preset ∈ presets then .ok ⟨rateFactor, preset⟩
    else Configuration.blame "COMPRESS.PRESET" (.unknownPreset preset)

/-- Encodes the picture again at a constant quality. -/
def compress : Schema where
  Settings := Quality
  paths := ["COMPRESS.CRF", "COMPRESS.PRESET"]
  parse := parseQuality
  synthesize q :=
    .ok ⟨["-c:v", "libx264", "-crf", toString q.rateFactor, "-preset", q.preset], none⟩

/-! ## Convert -/

/-- The container that a configuration gives to `convert`. -/
def parseFormat (c : Configuration) : Except Error Container := do
  let name ← c.text "CONVERT.FORMAT"
  match Container.parse name with
  | .ok container => .ok container
  | .error unknown => Configuration.blame "CONVERT.FORMAT" (.unknownFormat unknown)

/-- Writes another container. -/
def convert : Schema where
  Settings := Container
  paths := ["CONVERT.FORMAT"]
  parse := parseFormat
  synthesize container := .ok ⟨["-f", container.muxer], some container⟩

end Encoding

end MediaPipeline
