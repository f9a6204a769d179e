import MediaPipeline.FilePath
/-!
# Media — what an artifact holds and what holds it

A media type classifies an artifact coarsely, by a MIME type, a file
extension or its own name; a container is a format that an output can be
written in. All names are read in any letter case.
-/


namespace MediaPipeline

/-- The coarse class of an artifact. -/
inductive MediaType where
  | video
  | audio
  | image
  | other
  deriving DecidableEq, Repr, Inhabited

/-- A format that an output file can be written in. -/
inductive Container where
  | mp4
  | mkv
  | webm
  | mov
  | gif
  deriving DecidableEq, Repr, Inhabited

/-- A text that names none of its kind. -/
inductive UnknownName where
  | mediaType (text : String)
  | container (text : String)
  deriving DecidableEq, Repr

/-- The wording of an unknown name. -/
def UnknownName.message : UnknownName → String
  | .mediaType text => "unknown media type: " ++ text
  | .container text => "unsupported container: " ++ text

namespace MediaType

/-- The media types, in the order in which they are reported. -/
def all : List MediaType := [.video, .audio, .image, .other]

theorem mem_all (t : MediaType) : t ∈ all := by
  cases t <;> simp [all]

/-- The name of a media type. -/
def name : MediaType → String
  | .video => "video"
  | .audio => "audio"
  | .image => "image"
  | .other => "other"

/-- The media type with a given name, in lower case. -/
def named? (s : String) : Option MediaType := all.find? (·.name == s)

/-- The media type that a text names. -/
def parse (s : String) : Except UnknownName MediaType :=
  match named? s.toLower with
  | some t => .ok t
  | none => .error (.mediaType s.toLower)

/-- The media type of a MIME type: what its top-level type names, and `other`
for everything that is neither video, audio nor image. -/
def ofMime (mime : String) : MediaType :=
  let top := (Text.trim ((Text.pieces '/' mime).headD "")).toLower
  (named? top).getD .other

/-- The extensions that tell a media type. -/
def extensions : MediaType → List String
  | .video => ["mp4", "mkv", "webm", "mov", "avi", "m4v", "gif"]
  | .audio => ["mp3", "wav", "flac", "aac", "ogg", "opus", "m4a"]
  | .image => ["png", "jpg", "jpeg", "bmp", "webp", "tiff"]
  | .other => []

/-- The media type that a file extension, without its dot, tells. -/
def ofExtension (extension : String) : MediaType :=
  (all.find? fun t => t.extensions.contains extension.toLower).getD .other

/-- The media type that the extension of a path tells; a path without one
tells none. -/
def ofPath (p : FilePath) : MediaType :=
  match p.extension? with
  | some extension => ofExtension extension
  | none => .other

end MediaType

namespace Container

/-- The containers. -/
def all : List Container := [.mp4, .mkv, .webm, .mov, .gif]

/-- The file extension of a container, which is also its name. -/
def extension : Container → String
  | .mp4 => "mp4"
  | .mkv => "mkv"
  | .webm => "webm"
  | .mov => "mov"
  | .gif => "gif"

/-- The name of the format that writes a container. -/
def muxer : Container → String
  | .mkv => "matroska"
  | c => c.extension

/-- The container with a given name, in lower case. -/
def named? (s : String) : Option Container := all.find? (·.extension == s)

/-- A text as it is compared with the names of containers: without blanks
around it, without the dots before it, in lower case. -/
def plainName (s : String) : String :=
  (String.ofList ((Text.trim s).toList.dropWhile (· == '.'))).toLower

/-- The container that a text names, by its extension or its muxer. -/
def parse (s : String) : Except UnknownName Container :=
  let name := plainName s
  match all.find? fun c => c.extension == name || c.muxer == name with
  | some c => .ok c
  | none => .error (.container name)

end Container

end MediaPipeline
