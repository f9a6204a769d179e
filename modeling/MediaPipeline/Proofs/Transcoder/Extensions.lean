import Mathlib
import MediaPipeline.Feature.Catalog
import MediaPipeline.Proofs.Session.Consistency
import MediaPipeline.Proofs.Transcoder.Outputs

-- The library's lemmas on the case of letters (`Char.isAlpha_toLower_eq_isAlpha`,
-- `Char.toLower_toLower_eq_toLower`) are in no module of Mathlib's own, and in reach
-- through the whole of it only.

/-!
# Transcoder/Extensions — a container that was chosen is kept

The extension that the transcoder decides on for an output is read back from
the path of the output (`extension?_output`). So a step either names its output
after its own container, or passes on the extension that it was handed, where
this has its type (`extension?_of_container`, `extension?_of_passed`). An
extension in lower case then stays the same along all steps that choose nothing
and return the same type (`extension?_of_kept`): the container that was chosen
last names the output, and before any is chosen the intake does
(`extensions_kept`).
-/


namespace MediaPipeline

namespace FilePath

/-- Only a letter is written differently in lower case. -/
theorem mem_of_toLower {c : Char} {text : String} (hc : c.isAlpha = false)
    (h : c ∈ (text.map Char.toLower).toList) : c ∈ text.toList := by
  rw [String.toList_map] at h
  obtain ⟨d, hd, rfl⟩ := List.mem_map.mp h
  rw [Char.isAlpha_toLower_eq_isAlpha] at hc
  have hupper : ¬ d.isUpper = true := by
    intro hupper
    simp [Char.isAlpha, hupper] at hc
  rwa [Char.toLower_eq_of_not_isUpper hupper]

theorem IsExtension.toLower {extension : String} (h : IsExtension extension) :
    IsExtension (extension.map Char.toLower) where
  dotless hdot := h.dotless (mem_of_toLower rfl hdot)
  single hslash := h.single (mem_of_toLower rfl hslash)

end FilePath

theorem Container.isExtension (c : Container) : FilePath.IsExtension c.extension := by
  cases c <;> exact ⟨by decide, by decide⟩

/-- The extension of a container is in lower case. -/
theorem Container.toLower_extension (c : Container) :
    c.extension.map Char.toLower = c.extension := by
  apply String.toList_injective
  rw [String.toList_map]
  cases c <;> rfl

namespace Workspace

variable {extension : String}

/-- **The extension of an output is read back.** -/
theorem extension?_outputPath (w : Workspace) (session : SessionId) (index : Nat)
    (h : FilePath.IsExtension extension) :
    (w.outputPath session index extension).extension? = some extension := by
  have hname : (w.outputPath session index extension).fileName? =
      some (outputName index extension) :=
    FilePath.fileName?_join _ (isFileName_outputName index h.single)
  have hstem : "step-" ++ Text.zeroFilled 2 index ≠ "" := by simp
  unfold FilePath.extension?
  rw [hname]
  exact congrArg Prod.snd (FilePath.splitName_append hstem h.dotless)

end Workspace

namespace Pipeline

/-- The container that the step at a place chooses, if it chooses one. -/
def container? (p : Pipeline) (k : Nat) : Option Container :=
  p.steps[k]?.bind (·.command.container)

/-- The type of what the step at a place returns. -/
def outputType? (p : Pipeline) (k : Nat) : Option MediaType :=
  p.steps[k]?.map CompiledStep.outputType

/-- **A container that reaches a step.** It was chosen at this step or before
it, and all steps from there on return the same type. -/
structure Reaches (p : Pipeline) (j k : Nat) (c : Container) : Prop where
  place : j ≤ k
  chosen : p.container? j = some c
  sameType : ∀ i, j ≤ i → i ≤ k → p.outputType? i = p.outputType? k

end Pipeline

namespace Transcoder

variable {t : Transcoder} {s : Session} {r : Request} {p : Pipeline}
variable {intake : List Artifact} {a before first : Artifact} {c : Container}
variable {extension : String} {j k : Nat}

/-! ## One step -/

theorem outputExtension_of_container (h : r.command.container = some c) :
    outputExtension r = c.extension := by
  unfold outputExtension
  rw [h]

/-- A step that chooses nothing passes on the extension that it was handed. -/
theorem outputExtension_of_inherited (hnone : r.command.container = none)
    (hfirst : r.inputs.head? = some first) (htype : first.mediaType = r.outputType)
    (hextension : first.path.extension? = some extension) :
    outputExtension r = extension.map Char.toLower := by
  have hinherited : inheritedExtension? r = some extension := by
    unfold inheritedExtension?
    simp [hfirst, htype, hextension]
  unfold outputExtension
  rw [hnone, hinherited]

theorem isExtension_outputExtension (r : Request) :
    FilePath.IsExtension (outputExtension r) := by
  unfold outputExtension
  split
  · exact Container.isExtension _
  · split
    · rename_i extension hinherited
      obtain ⟨first, -, hguarded⟩ := Option.bind_eq_some_iff.mp hinherited
      obtain ⟨-, -, hextension⟩ := Option.bind_eq_some_iff.mp hguarded
      exact (FilePath.isExtension_of_extension? hextension).toLower
    · cases r.outputType <;> exact ⟨by decide, by decide⟩

/-- **An output has the extension that was decided on.** -/
theorem extension?_output (t : Transcoder) (r : Request) :
    (t.output r).path.extension? = some (outputExtension r) := by
  rw [path_output, t.workspace.extension?_outputPath r.session r.index
    (isExtension_outputExtension r)]

/-! ## Step after step -/

theorem outputType?_of_outputs (h : (t.outputs s intake p.steps)[k]? = some a) :
    p.outputType? k = some a.mediaType := by
  obtain ⟨step, handed, hstep, rfl⟩ := exists_request h
  exact congrArg (Option.map CompiledStep.outputType) hstep

/-- A step that chooses a container names its output after it. -/
theorem extension?_of_container (h : (t.outputs s intake p.steps)[k]? = some a)
    (hc : p.container? k = some c) : a.path.extension? = some c.extension := by
  obtain ⟨step, handed, hstep, rfl⟩ := exists_request h
  unfold Pipeline.container? at hc
  rw [hstep] at hc
  rw [extension?_output, outputExtension_of_container hc]

/-- A step that chooses nothing names its output after what it is handed, where
that has its type. -/
theorem extension?_of_handed {step : CompiledStep} {handed : List Artifact}
    (hstep : p.steps[k]? = some step) (hnone : p.container? k = none)
    (htype : p.outputType? k = some first.mediaType) (hfirst : handed.head? = some first)
    (hextension : first.path.extension? = some extension) :
    (t.output (s.request step handed)).path.extension? =
      some (extension.map Char.toLower) := by
  unfold Pipeline.container? at hnone
  unfold Pipeline.outputType? at htype
  rw [hstep] at hnone htype
  rw [extension?_output]
  exact congrArg some
    (outputExtension_of_inherited hnone hfirst (Option.some.inj htype).symm hextension)

/-- The first step is handed the intake. -/
theorem extension?_of_intake (h : (t.outputs s intake p.steps)[0]? = some a)
    (hnone : p.container? 0 = none) (hfirst : intake.head? = some first)
    (htype : p.outputType? 0 = some first.mediaType)
    (hextension : first.path.extension? = some extension) :
    a.path.extension? = some (extension.map Char.toLower) := by
  rw [getElem?_outputs_zero] at h
  obtain ⟨step, hstep, rfl⟩ := Option.map_eq_some_iff.mp h
  exact extension?_of_handed hstep hnone htype hfirst hextension

/-- A later step is handed the output before it. -/
theorem extension?_of_passed (hbefore : (t.outputs s intake p.steps)[k]? = some before)
    (h : (t.outputs s intake p.steps)[k + 1]? = some a) (hnone : p.container? (k + 1) = none)
    (htype : p.outputType? k = p.outputType? (k + 1))
    (hextension : before.path.extension? = some extension) :
    a.path.extension? = some (extension.map Char.toLower) := by
  have hpassed : p.outputType? (k + 1) = some before.mediaType :=
    htype.symm.trans (outputType?_of_outputs hbefore)
  rw [getElem?_outputs_succ hbefore] at h
  obtain ⟨step, hstep, rfl⟩ := Option.map_eq_some_iff.mp h
  exact extension?_of_handed hstep hnone hpassed rfl hextension

/-- **An extension in lower case is kept** along steps that choose nothing and
return the same type. The induction is over these steps. -/
theorem extension?_of_kept (hjk : j ≤ k) (hlower : extension.map Char.toLower = extension)
    (hbefore : (t.outputs s intake p.steps)[j]? = some before)
    (hextension : before.path.extension? = some extension)
    (hnone : ∀ i, j < i → i ≤ k → p.container? i = none)
    (htype : ∀ i, j ≤ i → i ≤ k → p.outputType? i = p.outputType? k)
    (h : (t.outputs s intake p.steps)[k]? = some a) :
    a.path.extension? = some extension := by
  induction k, hjk using Nat.le_induction generalizing a with
  | base =>
    rw [Option.some.inj (h.symm.trans hbefore)]
    exact hextension
  | succ k hjk ih =>
    have hk : k < (t.outputs s intake p.steps).length :=
      Nat.lt_of_succ_lt (List.getElem?_eq_some_iff.mp h).1
    have hlast : p.outputType? k = p.outputType? (k + 1) := htype k hjk (Nat.le_succ k)
    have hkept := ih (fun i hi hik => hnone i hi (Nat.le_succ_of_le hik))
      (fun i hi hik => (htype i hi (Nat.le_succ_of_le hik)).trans hlast.symm)
      (List.getElem?_eq_getElem hk)
    rw [extension?_of_passed (List.getElem?_eq_getElem hk) h
      (hnone (k + 1) (Nat.lt_succ_of_le hjk) le_rfl) hlast hkept, hlower]

/-! ## All steps -/

/-- **Outputs whose extensions are kept.** Each of them has an extension. The
container that reaches a step, and was chosen last of those that do, names the
output; and where none was chosen so far and all types are that of the first
artifact of the intake, the extension of this one does, in lower case. -/
structure ExtensionsKept (p : Pipeline) (intake outputs : List Artifact) : Prop where
  named : ∀ output ∈ outputs, ∃ extension, output.path.extension? = some extension
  chosen : ∀ j k c output, p.Reaches j k c → (∀ i d, p.Reaches i k d → i ≤ j) →
    outputs[k]? = some output → output.path.extension? = some c.extension
  inherited : ∀ k first extension output, intake.head? = some first →
    first.path.extension? = some extension →
    (∀ i ≤ k, p.container? i = none ∧ p.outputType? i = some first.mediaType) →
    outputs[k]? = some output → output.path.extension? = some (extension.map Char.toLower)

theorem extensionsKept_outputs (t : Transcoder) (s : Session) (p : Pipeline)
    (intake : List Artifact) : ExtensionsKept p intake (t.outputs s intake p.steps) where
  named output houtput := by
    obtain ⟨k, hk⟩ := List.mem_iff_getElem?.mp houtput
    obtain ⟨step, handed, -, rfl⟩ := exists_request hk
    exact ⟨_, extension?_output t _⟩
  chosen j k c output hreaches hlast houtput := by
    have hj : j < (t.outputs s intake p.steps).length :=
      Nat.lt_of_le_of_lt hreaches.place (List.getElem?_eq_some_iff.mp houtput).1
    have hat := List.getElem?_eq_getElem hj
    refine extension?_of_kept hreaches.place c.toLower_extension hat
      (extension?_of_container hat hreaches.chosen) (fun i hji hik => ?_) hreaches.sameType houtput
    -- a container chosen behind the last one that reaches the step would reach it too
    by_contra hchosen
    obtain ⟨d, hd⟩ := Option.ne_none_iff_exists'.mp hchosen
    have hle : i ≤ j :=
      hlast i d ⟨hik, hd, fun l hil hlk => hreaches.sameType l (hji.le.trans hil) hlk⟩
    omega
  inherited k first extension output hfirst hextension hplain houtput := by
    have hzero : 0 < (t.outputs s intake p.steps).length :=
      Nat.zero_lt_of_lt (List.getElem?_eq_some_iff.mp houtput).1
    have hat := List.getElem?_eq_getElem hzero
    have hlower : (extension.map Char.toLower).map Char.toLower = extension.map Char.toLower := by
      rw [String.map_map]
      congr 1
      exact funext Char.toLower_toLower_eq_toLower
    obtain ⟨hnone, htype⟩ := hplain 0 (Nat.zero_le k)
    exact extension?_of_kept (Nat.zero_le k) hlower hat
      (extension?_of_intake hat hnone hfirst htype hextension)
      (fun i _ hik => (hplain i hik).1)
      (fun i _ hik => (hplain i hik).2.trans (hplain k le_rfl).2.symm) houtput

/-- **A container that was chosen is kept to the end.** A run with the
transcoder that succeeds makes a call for each step, all of them return an
output, and the last of these is the one that is reported. The output of a step
is named after the container that was chosen last, as long as the types are the
same since then; and where none was chosen, after the intake, as long as the
types are all the same. -/
theorem extensions_kept {ω : Type} {e : Engine ω} {w : ω} {report : Session.Report}
    (he : t.Drives e) (hp : s.pipeline = some p)
    (hrun : (s.run e intake w).result = .ok report) :
    ∃ outputs : List Artifact, outputs.length = p.size ∧
      (s.calls e intake w).map Session.Call.output? = outputs.map some ∧
      (intake ++ outputs).getLast? = some report.output ∧
      ExtensionsKept p intake outputs := by
  obtain ⟨hcalls, hlast⟩ := outputs_of_run he hp hrun
  exact ⟨_, length_outputs t s intake p.steps, hcalls, hlast, extensionsKept_outputs t s p intake⟩

/-- A tree of commands with a conversion and a feature that chooses no container. -/
def filmLab : Registry where
  catalogs := ⟨⟨[.convert, .removeAudio]⟩, ⟨[]⟩⟩
  roots := [Registry.featuresNode
    [⟨"Convert Format", "", .direct, none, [], [.feature "CONVERT"]⟩,
      ⟨"Remove Audio", "", .direct, none, [], [.feature "REMOVE_AUDIO"]⟩]]

/-- A session over it that converts a video first. -/
def filmLabSession : Session :=
  Session.after ⟨⟨0⟩⟩ filmLab
    [.select [⟨"Features/Convert Format", []⟩, ⟨"Features/Remove Audio", []⟩],
      .configure 0 (Configuration.empty.set "CONVERT.FORMAT" (.text "MKV")), .submit]

/-- The step that converts. -/
def developing : CompiledStep where
  index := 0
  compiled := ⟨"CONVERT", "Convert Format", Entry.convert.intake, Entry.convert.progress,
    ⟨["-f", "matroska"], some .mkv⟩⟩

/-- The step that is left with the container. -/
def silencing : CompiledStep where
  index := 1
  compiled := ⟨"REMOVE_AUDIO", "Remove Audio", Entry.removeAudio.intake,
    Entry.removeAudio.progress, ⟨["-c:v", "copy", "-an"], none⟩⟩

/-- The pipeline of the session. -/
def filmLabPipeline : Pipeline := ⟨"Convert Format + Remove Audio", [developing, silencing]⟩

/-- A tool that succeeds whatever it is asked, and the directory of a session. -/
def darkroom : Host where
  files := { entries := [(["tool"], .file [] true), (["work"], .directory),
    (["work", "session-00000000-0000-0000-0000-000000000000"], .directory)] }

/-- A transcoder that calls this tool. -/
def developer : Transcoder := ⟨⟨"/tool"⟩, 1, 60, true, ⟨⟨"/work"⟩⟩⟩

/-- A video to start with. -/
def reel : List Artifact := [⟨⟨"reel.avi"⟩, .video⟩]

/-- What the step returns that converts. -/
def developed : Artifact :=
  ⟨⟨"/work/session-00000000-0000-0000-0000-000000000000/step-00.mkv"⟩, .video⟩

theorem perform_developing (hid : s.id = ⟨⟨0⟩⟩) :
    developer.perform (s.request developing reel) darkroom = (.ok developed, darkroom) := by
  unfold Session.request
  rw [hid]
  rfl

theorem perform_silencing (hid : s.id = ⟨⟨0⟩⟩) :
    developer.perform (s.request silencing [developed]) darkroom =
      (.ok (developer.output (s.request silencing [developed])), darkroom) := by
  have hextension : outputExtension (s.request silencing [developed]) = "mkv" := by
    have hinherited : outputExtension (s.request silencing [developed]) =
        "mkv".map Char.toLower := outputExtension_of_inherited rfl rfl rfl rfl
    exact hinherited.trans Container.mkv.toLower_extension
  unfold perform output
  rw [hextension]
  unfold Session.request
  rw [hid]
  rfl

/-- The run succeeds, step by step. -/
theorem result_run_reel (hready : s.state = .ready) (hid : s.id = ⟨⟨0⟩⟩)
    (hp : s.pipeline = some filmLabPipeline) :
    ∃ report, (s.run developer.engine reel darkroom).result = .ok report := by
  have htaken : filmLabPipeline.checkInputs (reel.map (·.mediaType)) = .ok () := rfl
  rw [Session.run_of_taken hready hp htaken]
  obtain ⟨first, hrun, hfirst, hswitch, hinputs, hworld⟩ :=
    exists_next_of_perform (m := s.opening reel darkroom) [silencing] rfl
      (perform_developing hid)
  have hperform : developer.perform (first.session.request silencing first.inputs) first.world =
      (.ok (developer.output (first.session.request silencing [developed])), darkroom) := by
    rw [hinputs, hworld]
    exact perform_silencing (hfirst.trans hid)
  obtain ⟨last, hrun', -, -, hinputs', -⟩ := exists_next_of_perform [] hswitch hperform
  unfold filmLabPipeline
  rw [hrun, hrun']
  show ∃ report, last.conclude.result = .ok report
  unfold Session.Moment.conclude
  rw [hinputs']
  exact ⟨_, rfl⟩

theorem extensions_kept_reel : ∃ report,
    developer.Drives developer.engine ∧ filmLabSession.pipeline = some filmLabPipeline ∧
      (filmLabSession.run developer.engine reel darkroom).result = .ok report ∧
      ∃ outputs : List Artifact, outputs.length = 2 ∧
        (filmLabSession.calls developer.engine reel darkroom).map Session.Call.output? =
          outputs.map some ∧
        (reel ++ outputs).getLast? = some report.output ∧
        ExtensionsKept filmLabPipeline reel outputs := by
  have hready : filmLabSession.state = .ready := by cbv
  have hid : filmLabSession.id = ⟨⟨0⟩⟩ := by cbv
  have hp : filmLabSession.pipeline = some filmLabPipeline := by cbv
  obtain ⟨report, hrun⟩ := result_run_reel hready hid hp
  exact ⟨report, drives_engine developer, hp, hrun,
    extensions_kept (drives_engine developer) hp hrun⟩

end Transcoder

end MediaPipeline
