import MediaPipeline.Feature.Basic
import MediaPipeline.FilePath
import MediaPipeline.Id
/-!
# Session/Engine — who runs the steps

A session hands each compiled step to an engine as a request and gets an
artifact or a failure back. An engine acts on a world of its own: the
files and tools it uses, or a script. A run can be aborted from outside at
any time, which the engine reports: before a request is made, while the
request is pending, so that it never ends, or while it ends.
-/


namespace MediaPipeline

/-- A media file that goes from step to step. It is known by its path; an id of
its own is left out, which nothing reads. -/
structure Artifact where
  path : FilePath
  mediaType : MediaType
  deriving DecidableEq, Repr, Inhabited

/-- The artifact at a path, classified by its extension. -/
def Artifact.ofPath (p : FilePath) : Artifact := ⟨p, .ofPath p⟩

/-- Everything that an engine needs to run one step. -/
structure Request where
  session : SessionId
  index : Nat
  feature : String
  command : Command
  inputs : List Artifact
  outputType : MediaType
  deriving DecidableEq, Repr, Inhabited

/-- What becomes of a request. A request that finished has a result, took
some time, in whole milliseconds, and may have seen an abort while it ended; a
request that was interrupted by an abort has none. -/
inductive Reply where
  | finished (result : Except Error Artifact) (elapsedMs : Nat) (aborted : Bool)
  | interrupted

/-- An engine on a world of type `ω`: whether the run is aborted just before
a request, what becomes of the request, and the clearing up after a session
whose run was abandoned. -/
structure Engine (ω : Type) where
  abortsBefore : Request → ω → Bool × ω
  call : Request → ω → Reply × ω
  abandon : SessionId → ω → ω

end MediaPipeline
