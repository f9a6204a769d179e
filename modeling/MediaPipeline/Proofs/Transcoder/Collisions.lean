import MediaPipeline.Proofs.Transcoder.Extensions
/-!
# Transcoder/Collisions — steps and sessions keep apart

Each call of a run asks for the output of its own step, and is handed what the
call before it returned (`requests`, `requests_of_run`); this holds of every run
with the transcoder, whatever becomes of it. An output is told apart by its
session and its step, so no call of a run writes where an earlier one wrote, nor
what it reads from there, and no call of one session writes where another session
does (`outputs_never_collide`).
-/


namespace MediaPipeline

namespace Transcoder

variable {t : Transcoder} {s : Session} {r r' : Request} {p : Pipeline} {inputs : List Artifact}
variable {steps : List CompiledStep} {k : Nat}

/-! ## What is asked for -/

/-- What the steps of a session ask for, each handed what the one before it
returned. -/
def requests (t : Transcoder) (s : Session) : List Artifact → List CompiledStep → List Request
  | _, [] => []
  | inputs, step :: rest =>
    s.request step inputs :: t.requests s [t.output (s.request step inputs)] rest

/-- Every request is for the step at its place. -/
theorem exists_step_of_requests (h : (t.requests s inputs steps)[k]? = some r) :
    ∃ step, steps[k]? = some step ∧ r.session = s.id ∧ r.index = step.index := by
  induction steps generalizing inputs k with
  | nil => cases h
  | cons step rest ih =>
    cases k with
    | zero =>
      cases h
      exact ⟨step, rfl, rfl, rfl⟩
    | succ k => exact ih h

/-- Every other step than the first is handed what the one before it returned. -/
theorem inputs_of_requests (h : (t.requests s inputs steps)[k]? = some r)
    (h' : (t.requests s inputs steps)[k + 1]? = some r') : r'.inputs = [t.output r] := by
  induction steps generalizing inputs k with
  | nil => cases h
  | cons step rest ih =>
    cases k with
    | zero =>
      cases h
      cases rest with
      | nil => cases h'
      | cons next rest =>
        cases h'
        rfl
    | succ k => exact ih h h'

section Run

variable {ω : Type} {e : Engine ω} {m : Session.Moment ω} {intake : List Artifact} {w : ω}
variable {call : Session.Call} {a : Artifact}

/-- **What the calls of a run ask for,** up to where it ends. The induction is over
the steps that are left; only a call that returned an output leads on to them. -/
theorem requests_of_moment (he : t.Drives e) (hid : m.session.id = s.id) :
    (m.calls e steps).map Session.Call.request <+: t.requests s m.inputs steps := by
  induction steps generalizing m with
  | nil => exact List.nil_prefix
  | cons step rest ih =>
    by_cases hpulled : (m.begin e step).session.switch = .pulled
    · rw [Session.Moment.calls_of_pulled hpulled]
      exact List.nil_prefix
    · rcases hturn : m.turn e step with o | next
      · rw [Session.Moment.calls_of_over hpulled hturn, List.map_singleton, request_call hid step]
        exact List.cons_prefix_cons.mpr ⟨rfl, List.nil_prefix⟩
      · obtain ⟨-, -, hinputs, hnext⟩ := handed_on he hid hturn
        have hrest := ih hnext
        rw [hinputs] at hrest
        rw [Session.Moment.calls_of_on hpulled hturn, List.map_cons, request_call hid step]
        exact List.cons_prefix_cons.mpr ⟨rfl, hrest⟩

/-- **What the calls of a run of a session ask for.** Without a pipeline there are
none. -/
theorem requests_of_run (he : t.Drives e) :
    (s.calls e intake w).map Session.Call.request <+:
      t.requests s intake ((s.pipeline.map Pipeline.steps).getD []) := by
  unfold Session.calls
  split
  · exact List.nil_prefix
  · cases s.pipeline with
    | none => exact List.nil_prefix
    | some p =>
      dsimp only
      split
      · exact List.nil_prefix
      · exact requests_of_moment he rfl

/-- Each call makes the request at its place. -/
theorem request_of_call (he : t.Drives e) (h : (s.calls e intake w)[k]? = some call) :
    (t.requests s intake ((s.pipeline.map Pipeline.steps).getD []))[k]? = some call.request := by
  have hrequests : (s.calls e intake w).map Session.Call.request <+:
      t.requests s intake ((s.pipeline.map Pipeline.steps).getD []) := requests_of_run he
  obtain ⟨more, hmore⟩ := hrequests
  have hk : k < ((s.calls e intake w).map Session.Call.request).length := by
    rw [List.length_map]
    exact (List.getElem?_eq_some_iff.mp h).1
  rw [← hmore, List.getElem?_append_left hk, List.getElem?_map, h]
  rfl

/-- What a call of a run returned is the output that it asked for. -/
theorem output_of_call (he : t.Drives e) (hcall : call ∈ s.calls e intake w)
    (h : call.output? = some a) : a = t.output call.request := by
  obtain ⟨w', hanswer⟩ := Session.exists_answer_of_mem_calls hcall
  exact output_of_answer he hanswer h

end Run

/-! ## What collides -/

/-- Outputs that collide were asked for by one session, for one step. -/
theorem eq_of_collides (h : (t.output r).path.Collides (t.output r').path) :
    r.session = r'.session ∧ r.index = r'.index := by
  rw [path_output, path_output] at h
  obtain ⟨hsession, hindex, -⟩ := Workspace.eq_of_collides
    (isExtension_outputExtension r).single (isExtension_outputExtension r').single h
  exact ⟨hsession, hindex⟩

/-- **Calls that keep apart.** No two of them write what collides; what one
returned is what it was to write, and what one after the first is handed does not
collide with what it writes itself. -/
structure KeptApart (t : Transcoder) (calls : List Session.Call) : Prop where
  apart : ∀ (j k : Nat) (c d : Session.Call), j < k → calls[j]? = some c → calls[k]? = some d →
    ¬ (t.output c.request).path.Collides (t.output d.request).path
  returned : ∀ c ∈ calls, ∀ a, c.output? = some a → a = t.output c.request
  unread : ∀ (k : Nat) (d : Session.Call), calls[k + 1]? = some d → ∀ a ∈ d.request.inputs,
    ¬ a.path.Collides (t.output d.request).path

section Run

variable {ω : Type} {e : Engine ω} {intake : List Artifact} {w : ω} {call : Session.Call}

/-- The calls of a session are for its steps, by their places. -/
theorem place_of_call (he : t.Drives e) (hs : s.Reachable)
    (h : (s.calls e intake w)[k]? = some call) :
    call.request.session = s.id ∧ call.request.index = k := by
  by_cases hready : s.state = .ready
  · obtain ⟨p, hp, -⟩ := hs.consistent.ready hready
    have hrequest := request_of_call he h
    rw [hp.pipeline] at hrequest
    obtain ⟨step, hstep, hsession, hindex⟩ := exists_step_of_requests hrequest
    exact ⟨hsession, hindex.trans (Registry.index_of_compileAll hp.compiled hstep)⟩
  · have hnone : s.calls e intake w = [] := if_pos hready
    rw [hnone] at h
    cases h

/-- **The steps of a run keep apart.** What collides is for one step, and the
places of two calls are different. -/
theorem keptApart_calls (he : t.Drives e) (hs : s.Reachable) (intake : List Artifact) (w : ω) :
    t.KeptApart (s.calls e intake w) := by
  have hapart : ∀ (j k : Nat) (c d : Session.Call), j < k → (s.calls e intake w)[j]? = some c →
      (s.calls e intake w)[k]? = some d →
        ¬ (t.output c.request).path.Collides (t.output d.request).path := by
    intro j k c d hjk hc hd hcollide
    obtain ⟨-, hindex⟩ := eq_of_collides hcollide
    rw [(place_of_call he hs hc).2, (place_of_call he hs hd).2] at hindex
    exact absurd hindex (Nat.ne_of_lt hjk)
  refine ⟨hapart, fun c hc a ha => output_of_call he hc ha, fun k d hd a ha => ?_⟩
  have hk : k < (s.calls e intake w).length :=
    Nat.lt_of_succ_lt (List.getElem?_eq_some_iff.mp hd).1
  have hc := List.getElem?_eq_getElem hk
  rw [inputs_of_requests (request_of_call he hc) (request_of_call he hd)] at ha
  rw [List.mem_singleton.mp ha]
  exact hapart k (k + 1) _ d (Nat.lt_succ_self k) hc hd

/-- A call of a session tells the session. -/
theorem session_of_call (he : t.Drives e) (h : call ∈ s.calls e intake w) :
    call.request.session = s.id := by
  obtain ⟨k, hk⟩ := List.mem_iff_getElem?.mp h
  obtain ⟨-, -, hsession, -⟩ := exists_step_of_requests (request_of_call he hk)
  exact hsession

end Run

/-- **What a request makes the transcoder do.** Either it fails and changes
nothing, or it makes the directory of the session and calls the tool, which is
told to write the output. -/
theorem perform_cases (t : Transcoder) (r : Request) (host : Host) :
    (∃ error, t.perform r host = (.error error, host)) ∨
      ∃ files, t.workspace.stepOutput host.files r.session r.index (outputExtension r) =
          .ok ((t.output r).path, files) ∧
        (t.perform r host).2 =
          ((t.invocation r (t.output r).path).run { host with files := files }).2 := by
  unfold perform
  cases hmade : t.workspace.stepOutput host.files r.session r.index (outputExtension r) with
  | error error => exact .inl ⟨error, rfl⟩
  | ok made =>
    obtain ⟨path, files⟩ := made
    have hpath : path = (t.output r).path := by
      rw [path_output]
      exact Workspace.path_of_stepOutput hmade
    rw [← hpath]
    refine .inr ⟨files, rfl, ?_⟩
    dsimp only
    split
    · rename_i after hrun
      rw [hrun]
    · rename_i error after hrun
      rw [hrun]

/-- **Outputs never collide.** Where the workspace gives two paths that are the
same, or lead to one place in the files, they are of the same session and step
and have the same extension. These are the paths that the transcoder tells the
tool to write; so in every run with it the steps keep apart, and no step of one
session writes what a step of another one does. -/
theorem outputs_never_collide {ω : Type} {e : Engine ω} (he : t.Drives e) :
    (∀ (w : Workspace) (files files' made made' : FileTree) (session session' : SessionId)
      (index index' : Nat) (extension extension' : String) (path path' : FilePath),
      '/' ∉ extension.toList → '/' ∉ extension'.toList →
      w.stepOutput files session index extension = .ok (path, made) →
      w.stepOutput files' session' index' extension' = .ok (path', made') →
      path.Collides path' → session = session' ∧ index = index' ∧ extension = extension') ∧
    (∀ r host, (∃ error, t.perform r host = (.error error, host)) ∨
      ∃ files, t.workspace.stepOutput host.files r.session r.index (outputExtension r) =
          .ok ((t.output r).path, files) ∧
        (t.perform r host).2 =
          ((t.invocation r (t.output r).path).run { host with files := files }).2) ∧
    (∀ s : Session, s.Reachable → ∀ intake w, t.KeptApart (s.calls e intake w)) ∧
    ∀ s s' : Session, s.id ≠ s'.id → ∀ intake intake' w w',
      ∀ c ∈ s.calls e intake w, ∀ c' ∈ s'.calls e intake' w',
        ¬ (t.output c.request).path.Collides (t.output c'.request).path := by
  refine ⟨?_, t.perform_cases, fun s hs => keptApart_calls he hs, ?_⟩
  · intro w files files' made made' session session' index index' extension extension' path path'
      hextension hextension' hmade hmade' hcollide
    rw [Workspace.path_of_stepOutput hmade, Workspace.path_of_stepOutput hmade'] at hcollide
    exact Workspace.eq_of_collides hextension hextension' hcollide
  · intro s s' hid intake intake' w w' c hc c' hc' hcollide
    have hsame := (eq_of_collides hcollide).1
    rw [session_of_call he hc, session_of_call he hc'] at hsame
    exact hid hsame

/-- Another session over the same tree of commands, with the same choice. -/
def filmLabRetake : Session :=
  Session.after ⟨⟨1⟩⟩ filmLab
    [.select [⟨"Features/Convert Format", []⟩, ⟨"Features/Remove Audio", []⟩],
      .configure 0 (Configuration.empty.set "CONVERT.FORMAT" (.text "MKV")), .submit]

/-- A session with the pipeline of the film lab makes a call at least. -/
theorem exists_call_reel (hready : s.state = .ready) (hp : s.pipeline = some filmLabPipeline) :
    ∃ call, call ∈ s.calls developer.engine reel darkroom := by
  have hpulled : ((s.opening reel darkroom).begin developer.engine developing).session.switch ≠
      .pulled := by
    rw [begin_engine]
    exact Session.Switch.noConfusion
  rw [Session.calls_of_taken hready hp rfl]
  unfold filmLabPipeline
  rw [Session.Moment.calls]
  exact ⟨_, by rw [if_neg hpulled]; exact List.mem_cons_self⟩

/-- The directory of the session is there, so that any output can be asked for. -/
theorem stepOutput_darkroom (index : Nat) (extension : String) :
    developer.workspace.stepOutput darkroom.files ⟨⟨0⟩⟩ index extension =
      .ok (developer.workspace.outputPath ⟨⟨0⟩⟩ index extension, darkroom.files) := by
  have hmade : darkroom.files.makeDirectories (developer.workspace.sessionDirectory ⟨⟨0⟩⟩) =
      (darkroom.files, none) := rfl
  unfold Workspace.stepOutput
  rw [hmade]

theorem outputs_never_collide_reel :
    developer.Drives developer.engine ∧ filmLabSession.Reachable ∧
      filmLabSession.id ≠ filmLabRetake.id ∧
      (∃ path, developer.workspace.stepOutput darkroom.files ⟨⟨0⟩⟩ 123 "tar.gz" =
          .ok (path, darkroom.files) ∧ path.Collides path ∧
        ((⟨⟨0⟩⟩ : SessionId) = ⟨⟨0⟩⟩ ∧ 123 = 123 ∧ "tar.gz" = "tar.gz")) ∧
      developer.KeptApart (filmLabSession.calls developer.engine reel darkroom) ∧
      ∃ c ∈ filmLabSession.calls developer.engine reel darkroom,
        ∃ c' ∈ filmLabRetake.calls developer.engine reel darkroom,
          ¬ (developer.output c.request).path.Collides (developer.output c'.request).path := by
  have hreachable : filmLabSession.Reachable := ⟨_, _, _, rfl⟩
  have hfirst : filmLabSession.id = ⟨⟨0⟩⟩ := by cbv
  have hsecond : filmLabRetake.id = ⟨⟨1⟩⟩ := by cbv
  have hid : filmLabSession.id ≠ filmLabRetake.id := by
    rw [hfirst, hsecond]
    decide
  obtain ⟨hpaths, -, hapart, hsessions⟩ := outputs_never_collide (drives_engine developer)
  obtain ⟨c, hc⟩ := exists_call_reel (s := filmLabSession) (by cbv) (by cbv)
  obtain ⟨c', hc'⟩ := exists_call_reel (s := filmLabRetake) (by cbv) (by cbv)
  obtain ⟨path, hmade⟩ : ∃ path, developer.workspace.stepOutput darkroom.files ⟨⟨0⟩⟩ 123 "tar.gz" =
      .ok (path, darkroom.files) := ⟨_, stepOutput_darkroom 123 "tar.gz"⟩
  have hself : path.Collides path := .inl rfl
  exact ⟨drives_engine developer, hreachable, hid,
    ⟨path, hmade, hself, hpaths _ _ _ _ _ _ _ _ _ _ _ _ _ (by decide) (by decide) hmade hmade
      hself⟩,
    hapart _ hreachable _ _, c, hc, c', hc', hsessions _ _ hid _ _ _ _ c hc c' hc'⟩

end Transcoder

end MediaPipeline
