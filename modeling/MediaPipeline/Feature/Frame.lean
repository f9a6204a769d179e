import MediaPipeline.Feature.Basic
import MediaPipeline.Decimal.Numeral
/-!
# Feature/Frame — the size and shape of a picture

Three features that set the frame: `aspectRatio` scales to dimensions that
must match a declared ratio, `resize` scales to any dimensions, and `crop`
cuts a rectangle out of each picture.
-/


namespace MediaPipeline

namespace Frame

/-- The greatest width or height of a frame. -/
def maxDimension : Nat := 16384

/-- The width or height at a path, from one to `maxDimension`. -/
def dimension (c : Configuration) (path : String) : Except Error Nat := do
  let n ← c.natural path
  if n = 0 ∨ maxDimension < n then
    Configuration.blame path (.dimensionOutOfRange maxDimension n)
  else .ok n

/-! ## Aspect ratio -/

/-- How far the ratio of the dimensions may be from the declared one. -/
def ratioTolerance : Float := 1e-6

/-- The settings of `aspectRatio`. -/
structure RatioSettings where
  ratio : Float
  width : Nat
  height : Nat

/-- The two numbers around the first colon or slash in a text. -/
def operands? (text : String) : Option (Float × Float) := do
  let cs := text.toList
  let isMark := fun c => c == ':' || c == '/'
  let (w, h) ←
    match cs.dropWhile (!isMark ·) with
    | [] => none
    | _ :: after => some (String.ofList (cs.takeWhile (!isMark ·)), String.ofList after)
  let width ← Decimal.float? (Text.trim w)
  let height ← Decimal.float? (Text.trim h)
  some (width, height)

/-- The ratio that two numbers around a mark declare; the second one is not
zero. -/
def ratio? (text : String) : Option Float := do
  let (width, height) ← operands? text
  if height != 0.0 then some (width / height) else none

/-- The declared ratio, as a number or as a text. -/
def declaredRatio (c : Configuration) : Except Error Float := do
  match ← c.value "ASPECT_RATIO" with
  | .text s =>
    match ratio? s with
    | some x => .ok x
    | none => Configuration.blame "ASPECT_RATIO" (.notRatio s)
  | _ => c.number "ASPECT_RATIO"

/-- The settings that a configuration gives to `aspectRatio`. -/
def parseRatio (c : Configuration) : Except Error RatioSettings := do
  let ratio ← declaredRatio c
  if ratio ≤ 0.0 then Configuration.blame "ASPECT_RATIO" (.ratioNotPositive ratio)
  else
    let width ← dimension c "ASPECT_RATIO.WIDTH"
    let height ← dimension c "ASPECT_RATIO.HEIGHT"
    .ok ⟨ratio, width, height⟩

/-- The filter that scales to a width and a height. -/
def scale (width height : Nat) : Command := ⟨["-vf", s!"scale={width}:{height}"], none⟩

/-- The ratio of a width to a height. -/
def actualRatio (width height : Nat) : Float := Float.ofNat width / Float.ofNat height

/-- The command of `aspectRatio`, unless the dimensions are too far from the
declared ratio. -/
def synthesizeRatio (s : RatioSettings) : Except Error Command :=
  let actual := actualRatio s.width s.height
  if (actual - s.ratio).abs > ratioTolerance then
    .error (.invariant "Aspect Ratio" (.ratioMismatch s.width s.height actual s.ratio))
  else .ok (scale s.width s.height)

/-- Scales to dimensions that match a declared ratio. -/
def aspectRatio : Schema where
  Settings := RatioSettings
  paths := ["ASPECT_RATIO", "ASPECT_RATIO.WIDTH", "ASPECT_RATIO.HEIGHT"]
  parse := parseRatio
  synthesize := synthesizeRatio

/-! ## Resize -/

/-- A width and a height. -/
structure Size where
  width : Nat
  height : Nat
  deriving DecidableEq, Repr

/-- The settings that a configuration gives to `resize`. -/
def parseSize (c : Configuration) : Except Error Size := do
  let width ← dimension c "RESIZE.WIDTH"
  let height ← dimension c "RESIZE.HEIGHT"
  .ok ⟨width, height⟩

/-- Scales to any dimensions. -/
def resize : Schema where
  Settings := Size
  paths := ["RESIZE.WIDTH", "RESIZE.HEIGHT"]
  parse := parseSize
  synthesize s := .ok (scale s.width s.height)

/-! ## Crop -/

/-- A rectangle by its size and its upper left corner. -/
structure Rectangle where
  width : Nat
  height : Nat
  x : Nat
  y : Nat
  deriving DecidableEq, Repr

/-- The settings that a configuration gives to `crop`; the corner is that of
the frame where none is given. -/
def parseRectangle (c : Configuration) : Except Error Rectangle := do
  let width ← dimension c "CROP.WIDTH"
  let height ← dimension c "CROP.HEIGHT"
  let x ← c.optional "CROP.X" Configuration.natural
  let y ← c.optional "CROP.Y" Configuration.natural
  .ok ⟨width, height, x.getD 0, y.getD 0⟩

/-- Cuts a rectangle out of each picture. -/
def crop : Schema where
  Settings := Rectangle
  paths := ["CROP.WIDTH", "CROP.HEIGHT", "CROP.X", "CROP.Y"]
  parse := parseRectangle
  synthesize r := .ok ⟨["-vf", s!"crop={r.width}:{r.height}:{r.x}:{r.y}"], none⟩

end Frame

end MediaPipeline
