import MediaPipeline.Feature.Encoding
import MediaPipeline.Feature.Frame
import MediaPipeline.Feature.Stream
import MediaPipeline.Feature.Timeline
import MediaPipeline.Feature.Verbatim
/-!
# Feature/Catalog — the features on offer

A catalog lists entries in the order of display. Entries with one key or one
name are allowed here, and a look-up then finds the first.
-/


namespace MediaPipeline

namespace Entry

/-- A configuration with values at the given paths. -/
def defaultsOf (values : List (String × Leaf)) : Configuration :=
  values.foldl (fun c v => c.set v.1 v.2) .empty

/-- The entry of `Frame.aspectRatio`. -/
def aspectRatio : Entry where
  key := "ASPECT_RATIO"
  name := "Aspect Ratio"
  description := "Change the display aspect ratio of a video"
  intake := .single .video
  progress := ⟨"Changing Aspect Ratio ...", "#3FBD71"⟩
  ui := some "aspect-ratio"
  defaults := some (defaultsOf [("ASPECT_RATIO", .number (1920.0 / 1080.0)),
    ("ASPECT_RATIO.WIDTH", .number 1920.0), ("ASPECT_RATIO.HEIGHT", .number 1080.0)])
  feature := Frame.aspectRatio.toFeature

/-- The entry of `Frame.resize`. -/
def resize : Entry where
  key := "RESIZE"
  name := "Resize"
  description := "Scale a video to a new resolution"
  intake := .single .video
  progress := ⟨"Resizing ...", "#4A90E2"⟩
  ui := some "resize"
  feature := Frame.resize.toFeature

/-- The entry of `Frame.crop`. -/
def crop : Entry where
  key := "CROP"
  name := "Crop"
  description := "Crop a region out of a video"
  intake := .single .video
  progress := ⟨"Cropping ...", "#E2A14A"⟩
  ui := some "crop"
  feature := Frame.crop.toFeature

/-- The entry of `Timeline.trim`. -/
def trim : Entry where
  key := "TRIM"
  name := "Trim"
  description := "Cut a video down to a time range"
  intake := .single .video
  progress := ⟨"Trimming ...", "#BD3F71"⟩
  ui := some "trim"
  feature := Timeline.trim.toFeature

/-- The entry of `Encoding.compress`. -/
def compress : Entry where
  key := "COMPRESS"
  name := "Compress"
  description := "Reduce file size by re-encoding with H.264"
  intake := .single .video
  progress := ⟨"Compressing ...", "#3F71BD"⟩
  ui := some "compress"
  defaults := some (defaultsOf [("COMPRESS.CRF", .number 23.0)])
  feature := Encoding.compress.toFeature

/-- The entry of `Encoding.convert`. -/
def convert : Entry where
  key := "CONVERT"
  name := "Convert Format"
  description := "Convert a video into another container format"
  intake := .single .video
  progress := ⟨"Converting ...", "#8E44AD"⟩
  ui := some "convert"
  defaults := some (defaultsOf [("CONVERT.FORMAT", .text "mp4")])
  feature := Encoding.convert.toFeature

/-- The entry of `Stream.grayscale`. -/
def grayscale : Entry where
  key := "GRAYSCALE"
  name := "Grayscale"
  description := "Convert a video to black and white"
  intake := .single .video
  progress := ⟨"Removing Color ...", "#7F8C8D"⟩
  defaults := some .empty
  feature := Stream.grayscale.toFeature

/-- The entry of `Stream.removeAudio`. -/
def removeAudio : Entry where
  key := "REMOVE_AUDIO"
  name := "Remove Audio"
  description := "Strip the audio track from a video"
  intake := .single .video
  progress := ⟨"Removing Audio ...", "#C0392B"⟩
  defaults := some .empty
  feature := Stream.removeAudio.toFeature

/-- The entry of `Stream.volume`. -/
def volume : Entry where
  key := "VOLUME"
  name := "Change Volume"
  description := "Make an audio file louder or quieter"
  intake := .single .audio
  progress := ⟨"Adjusting Volume ...", "#16A085"⟩
  ui := some "volume"
  feature := Stream.volume.toFeature

/-- The entry of `Verbatim.customRun`, which is not listed among the
features. -/
def customRun : Entry where
  key := "CUSTOM_RUN"
  name := "Custom Run"
  description := "Run your own ffmpeg arguments"
  intake := .optional .video [.audio, .image]
  progress := ⟨"Running Custom Command ...", "#F39C12"⟩
  ui := some "custom-run"
  hidden := true
  feature := Verbatim.customRun.toFeature

end Entry

/-- The features on offer, in the order of display. -/
structure FeatureCatalog where
  entries : List Entry := []

namespace FeatureCatalog

/-- The features of this library. -/
def builtin : FeatureCatalog where
  entries := [.aspectRatio, .resize, .crop, .trim, .compress, .convert, .grayscale,
    .removeAudio, .volume, .customRun]

/-- The catalog with one entry more at its end. -/
def push (c : FeatureCatalog) (e : Entry) : FeatureCatalog := ⟨c.entries ++ [e]⟩

/-- The first entry with a key. -/
def get? (c : FeatureCatalog) (key : String) : Option Entry :=
  c.entries.find? (·.key == key)

/-- The first entry with a name. -/
def byName? (c : FeatureCatalog) (name : String) : Option Entry :=
  c.entries.find? (·.name == name)

end FeatureCatalog

end MediaPipeline
