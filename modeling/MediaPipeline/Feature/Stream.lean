import MediaPipeline.Feature.Basic
/-!
# Feature/Stream — colour and sound

Features on a single stream: `grayscale` takes the colour out of the picture,
`removeAudio` drops the sound, and `volume` makes the sound louder or
quieter. The first two need no settings and read none.
-/


namespace MediaPipeline

namespace Stream

/-- A feature without settings, which always makes the same command. -/
def constant (args : List String) : Schema where
  Settings := Unit
  paths := []
  parse _ := .ok ()
  synthesize _ := .ok ⟨args, none⟩

/-- Takes the colour out of the picture. -/
def grayscale : Schema := constant ["-vf", "hue=s=0"]

/-- Drops the sound. -/
def removeAudio : Schema := constant ["-c:v", "copy", "-an"]

/-- The greatest factor for the volume. -/
def maxLevel : Float := 10.0

/-- The factor that a configuration gives to `volume`. -/
def parseLevel (c : Configuration) : Except Error Float := do
  let level ← c.number "VOLUME.LEVEL"
  if level ≤ 0.0 || level > maxLevel then
    Configuration.blame "VOLUME.LEVEL" (.levelOutOfRange maxLevel level)
  else .ok level

/-- Makes the sound louder or quieter. -/
def volume : Schema where
  Settings := Float
  paths := ["VOLUME.LEVEL"]
  parse := parseLevel
  synthesize level := .ok ⟨["-af", "volume=" ++ Decimal.plain level], none⟩

end Stream

end MediaPipeline
