import MediaPipeline.Proofs.Plan.Success
/-!
# Plan/Layout — the order and the places of a plan

A plan that exists is the flattening along its path and nothing else, at
consecutive places (`plan_flattens`). A longer path only adds features behind
(`FlattensAlong.isPrefix`), and where a plan begins moves its places and
nothing else (`plan_shift`): not its order, its length or its failures.
-/


namespace MediaPipeline

/-- A planned feature a number of places further back. -/
def Planned.shift (base : Nat) (q : Planned) : Planned := ⟨base + q.index, q.entry⟩

namespace Catalogs

variable {c : Catalogs} {w : Workflow} {path more : List Nat} {base : Nat}
variable {leaves longer : List Entry} {planned : List Planned}

/-- **A longer path goes on behind a shorter one.** The induction is on the
shorter path; both flatten the same workflows along it. -/
theorem FlattensAlong.isPrefix (h : c.FlattensAlong w path leaves)
    (hlonger : c.FlattensAlong w (path ++ more) longer) : leaves <+: longer := by
  induction h generalizing longer with
  | stop hsteps =>
    rw [List.nil_append] at hlonger
    cases hlonger with
    | stop hsteps' => exact (hsteps.unique hsteps') ▸ List.prefix_rfl
    | go hsteps' _ _ =>
      rw [hsteps.unique hsteps']
      exact List.prefix_append _ _
  | go hsteps hchild _ ih =>
    rw [List.cons_append] at hlonger
    cases hlonger with
    | go hsteps' hchild' hmore' =>
      have hsame := Option.some.inj (hchild.symm.trans hchild')
      subst hsame
      rw [hsteps.unique hsteps']
      exact (List.prefix_append_right_inj _).mpr (ih hmore')

/-- A plan holds the flattening along its path. -/
theorem flattensAlong_of_plan (h : c.plan w path base = .ok planned) :
    c.FlattensAlong w path (planned.map Planned.entry) := by
  obtain ⟨leaves, halong, -, rfl⟩ := plan_eq_ok.mp h
  obtain ⟨-, -, hflat⟩ := expandsAlong_iff.mp halong
  rwa [map_entry_numbered]

/-- What is planned are features of the catalog. -/
theorem entry_mem_of_plan {q : Planned} (h : c.plan w path base = .ok planned)
    (hq : q ∈ planned) : q.entry ∈ c.features.entries :=
  (flattensAlong_of_plan h).subset (List.mem_map_of_mem hq)

/-! ## Places -/

theorem numbered_eq_map_shift (base : Nat) (leaves : List Entry) :
    numbered base leaves = (numbered 0 leaves).map (Planned.shift base) := by
  refine List.ext_getElem (by simp [numbered]) fun i h₁ h₂ => ?_
  simp [numbered, Planned.shift]

/-- Features at consecutive places are known by their order and the first
place. -/
theorem numbered_prefix {base : Nat} (h : leaves <+: longer) :
    numbered base leaves <+: numbered base longer := by
  obtain ⟨rest, rfl⟩ := h
  unfold numbered
  rw [List.mapIdx_append]
  exact List.prefix_append _ _

/-- **Where a plan begins moves its places and nothing else.** -/
theorem plan_shift (c : Catalogs) (w : Workflow) (path : List Nat) (base : Nat) :
    c.plan w path base = (c.plan w path 0).map (List.map (Planned.shift base)) := by
  unfold plan
  cases c.leaves w with
  | error e => rfl
  | ok own =>
    cases c.continuation w path with
    | error e => rfl
    | ok more => exact congrArg Except.ok (numbered_eq_map_shift base (own ++ more))

/-- The plan of a path is where the plan of a longer one starts. -/
theorem plan_prefix {long : List Planned} (h : c.plan w path base = .ok planned)
    (hlong : c.plan w (path ++ more) base = .ok long) : planned <+: long := by
  obtain ⟨leaves, halong, -, rfl⟩ := plan_eq_ok.mp h
  obtain ⟨leaves', halong', -, rfl⟩ := plan_eq_ok.mp hlong
  obtain ⟨-, -, hflat⟩ := expandsAlong_iff.mp halong
  obtain ⟨-, -, hflat'⟩ := expandsAlong_iff.mp halong'
  exact numbered_prefix (hflat.isPrefix hflat')

/-- **What a plan is, where there is one.** Its features are the flattened
steps of the workflow, followed by those of each descendant on the path, and
no other list is; their places follow each other from `base` on. The plan of
a longer path starts with it, and it is the plan from place zero, moved. -/
theorem plan_flattens (h : c.plan w path base = .ok planned) :
    (∀ leaves, c.FlattensAlong w path leaves ↔ planned.map Planned.entry = leaves) ∧
      planned.map Planned.index = List.range' base planned.length ∧
      (∀ more long, c.plan w (path ++ more) base = .ok long → planned <+: long) ∧
      c.plan w path base = (c.plan w path 0).map (List.map (Planned.shift base)) := by
  have hflat := flattensAlong_of_plan h
  have hunique : ∀ leaves, c.FlattensAlong w path leaves ↔
      planned.map Planned.entry = leaves := by
    intro leaves
    constructor
    · exact hflat.unique
    · rintro rfl
      exact hflat
  exact ⟨hunique, map_index_of_plan h, fun _ _ => plan_prefix h, plan_shift c w path base⟩

/-- A workflow that refers to another one and has a child to go on with. -/
def keepsake : Workflow where
  name := "Keepsake"
  steps := [.workflow "Quiet", .feature "GRAYSCALE"]
  child := [{ name := "Quieter", steps := [.feature "REMOVE_AUDIO"] }]

/-- Catalogs for it. -/
def keepsakes : Catalogs where
  features := ⟨[.grayscale, .removeAudio]⟩
  workflows := ⟨[{ name := "Quiet", steps := [.feature "REMOVE_AUDIO"] }, keepsake]⟩

theorem plan_flattens_keepsake :
    ∃ planned, keepsakes.plan keepsake [0] 5 = .ok planned ∧
      (∀ leaves, keepsakes.FlattensAlong keepsake [0] leaves ↔
        planned.map Planned.entry = leaves) ∧
      planned.map Planned.index = [5, 6, 7] := by
  have hplan : keepsakes.plan keepsake [0] 5 =
      .ok [⟨5, .removeAudio⟩, ⟨6, .grayscale⟩, ⟨7, .removeAudio⟩] := by cbv
  obtain ⟨hflat, hplaces, -, -⟩ := plan_flattens hplan
  exact ⟨_, hplan, hflat, hplaces⟩

end Catalogs

end MediaPipeline
