import MediaPipeline.Event.Bus
import MediaPipeline.Main
import MediaPipeline.Proofs.Plan.Flattening
import MediaPipeline.Proofs.Plan.Reference
import MediaPipeline.Proofs.Traversal
import MediaPipeline.Proofs.Plan.Expansion
import MediaPipeline.Proofs.Plan.Success
import MediaPipeline.Proofs.Pipeline
import MediaPipeline.Proofs.Registry.Compilation
import MediaPipeline.Proofs.Session.Statuses
import MediaPipeline.Proofs.Session.Turns
import MediaPipeline.Proofs.Session.Calls
import MediaPipeline.Proofs.Session.Consistency
import MediaPipeline.Proofs.Session.Conduct
import MediaPipeline.Proofs.Plan.Layout
import MediaPipeline.Proofs.Plan.Seam
import MediaPipeline.Proofs.Plan.Misfit
import MediaPipeline.Proofs.Registry.References
import MediaPipeline.Proofs.Registry.Tree
import MediaPipeline.Proofs.Session.Watching
import MediaPipeline.Proofs.Session.Abort
import MediaPipeline.Proofs.Session.Precision
import MediaPipeline.Proofs.Intake
import MediaPipeline.Proofs.Registry.Disabling
import MediaPipeline.Proofs.Registry.Handover
import MediaPipeline.Proofs.Registry.Addressing
import MediaPipeline.Proofs.Registry.Listing
import MediaPipeline.Proofs.Registry.Resolution
import MediaPipeline.Proofs.Registry.Hiding
import MediaPipeline.Proofs.Session.Course
import MediaPipeline.Proofs.Session.Journal
import MediaPipeline.Proofs.StepConfigs
import MediaPipeline.Proofs.Session.Submission
import MediaPipeline.Proofs.Feature.Reading
import MediaPipeline.Proofs.Registry.Failures
import MediaPipeline.Proofs.Session.Failures
import MediaPipeline.Proofs.Session.Rejection
import MediaPipeline.Proofs.Session.Twins
import MediaPipeline.Proofs.Session.Residue
import MediaPipeline.Proofs.Plan.Compiling
import MediaPipeline.Proofs.Json.Formats
import MediaPipeline.Proofs.Configuration.Reading
import MediaPipeline.Proofs.Transcoder
import MediaPipeline.Proofs.Plan.Continuations
import MediaPipeline.Proofs.Plan.Stack
import MediaPipeline.Proofs.Plan.Numbering
import MediaPipeline.Proofs.Registry.Way
import MediaPipeline.Proofs.Registry.Cycles
import MediaPipeline.Proofs.Feature.Ratio
import MediaPipeline.Proofs.Plan.Ends
import MediaPipeline.Proofs.Intake.Validity
import MediaPipeline.Proofs.Configuration.Places
import MediaPipeline.Proofs.Configuration.Leaves
import MediaPipeline.Proofs.Configuration.Order
import MediaPipeline.Proofs.Feature.Blame
import MediaPipeline.Proofs.Feature.Integers
import MediaPipeline.Proofs.Event.History
import MediaPipeline.Proofs.Pipeline.InPlace
import MediaPipeline.Proofs.Invocation
import MediaPipeline.Proofs.Transcoder.Extensions
import MediaPipeline.Proofs.Id
import MediaPipeline.Proofs.Registry.Search
import MediaPipeline.Proofs.Workspace
import MediaPipeline.Proofs.Transcoder.Collisions
