import MediaPipeline.Proofs.Registry.Disabling
import MediaPipeline.Proofs.Registry.Way
/-!
# Registry/Cycles — what is reported as a reference to itself

A workflow is reported to refer to itself where its name is met again on the
way of the check. The way goes through references and into children alike
(`Follows`), while only references can lead round (`Leads`): a child is chosen
afterwards, and planning begins anew at it. So there are two reasons for the
report. Either references lead from a workflow of the catalog back to it
(`Circles`), or two different workflows on one way have the same name, at least
one of which is a child (`Clashes`). `build_selfReference` says that there is no
third one, and that catalogs with either of them are not accepted;
`selfReference_of_clash` has catalogs of the second kind, in which nothing leads
back to where it comes from and every way to go on has a plan.

The argument is in two steps. A report gives two workflows of its name, the one
on a way from the other (`exists_of_selfReference`), and a way through
references and children from a workflow back to it contains a circle of
references, for children alone lead only further down (`leads_of_follows`).
-/


namespace MediaPipeline

open Traversal Relation

namespace Workflow

variable {u w v : Workflow}

theorem descendants_trans (hw : w ∈ u.descendants) (hv : v ∈ w.descendants) :
    v ∈ u.descendants := by
  obtain ⟨path, hpath⟩ := mem_descendants.mp hw
  obtain ⟨more, hmore⟩ := mem_descendants.mp hv
  exact mem_descendants.mpr ⟨path ++ more, (descendant?_append hpath).trans hmore⟩

theorem sizeOf_lt_of_mem_child (hv : v ∈ w.child) : sizeOf v < sizeOf w := by
  obtain ⟨i, hi, rfl⟩ := List.getElem_of_mem hv
  exact sizeOf_child_lt ⟨i, hi⟩

end Workflow

namespace Catalogs

variable {c : Catalogs} {w v : Workflow}

/-! ## Ways through references and children -/

/-- A step of the one workflow refers to the other, or the other is its
child. -/
def Follows (c : Catalogs) (w v : Workflow) : Prop := c.Refers w v ∨ v ∈ w.child

/-- A step of the one workflow, or of one below it, refers to the other. -/
def Leads (c : Catalogs) (w v : Workflow) : Prop := ∃ d ∈ w.descendants, c.Refers d v

/-- References lead from a workflow of the catalog back to it. -/
def Circles (c : Catalogs) : Prop := ∃ w ∈ c.workflows.workflows, TransGen c.Leads w w

/-- Two different workflows have one name, and the one is on a way from the
other. They are not both in the catalog, so one of them is a child. -/
def Clashes (c : Catalogs) (name : String) : Prop :=
  ∃ w ∈ c.workflows.workflows, ∃ a b, ReflTransGen c.Follows w a ∧ TransGen c.Follows a b ∧
    a.name = name ∧ b.name = name ∧ a ≠ b ∧
    (a ∉ c.workflows.workflows ∨ b ∉ c.workflows.workflows)

theorem mem_of_refers (h : c.Refers w v) : v ∈ c.workflows.workflows := by
  obtain ⟨name, -, hget⟩ := h
  exact WorkflowCatalog.mem_of_get? hget

/-- What a workflow leads to is read off the steps of everything below it. -/
theorem leads_iff : c.Leads w v ↔
    ∃ name, .workflow name ∈ w.descendants.flatMap (·.steps) ∧ c.workflows.get? name = some v := by
  simp only [Leads, Refers, List.mem_flatMap]
  constructor
  · rintro ⟨d, hd, name, hstep, hget⟩
    exact ⟨name, ⟨d, hd, hstep⟩, hget⟩
  · rintro ⟨name, ⟨d, hd, hstep⟩, hget⟩
    exact ⟨d, hd, name, hstep, hget⟩

/-- What a workflow below leads to, the one above leads to. -/
theorem Leads.of_descendant {u : Workflow} (hw : w ∈ u.descendants) (h : c.Leads w v) :
    c.Leads u v := by
  obtain ⟨d, hd, href⟩ := h
  exact ⟨d, Workflow.descendants_trans hw hd, href⟩

/-- A way down to a workflow below consists of children. -/
theorem follows_of_descendant? {path : List Nat} {d : Workflow}
    (h : w.descendant? path = some d) : ReflTransGen c.Follows w d := by
  induction path generalizing w with
  | nil =>
    cases h
    exact .refl
  | cons n path ih =>
    obtain ⟨u, hu, h⟩ := Option.bind_eq_some_iff.mp h
    exact .head (.inr (List.mem_of_getElem? hu)) (ih h)

theorem Leads.follows (h : c.Leads w v) : TransGen c.Follows w v := by
  obtain ⟨d, hd, href⟩ := h
  obtain ⟨path, hpath⟩ := Workflow.mem_descendants.mp hd
  exact TransGen.tail' (follows_of_descendant? hpath) (.inl href)

/-- Where references lead, a way does. -/
theorem follows_of_leads (h : TransGen c.Leads w v) : TransGen c.Follows w v := by
  induction h with
  | single hleads => exact hleads.follows
  | tail _ hleads ih => exact ih.trans hleads.follows

/-- **A way leads further down, or by references to a workflow of the catalog
and then down from there.** The induction is on the way, one move after the
other. -/
theorem leads_of_follows (h : TransGen c.Follows w v) :
    sizeOf v < sizeOf w ∧ v ∈ w.descendants ∨
      ∃ u ∈ c.workflows.workflows, TransGen c.Leads w u ∧ v ∈ u.descendants := by
  induction h with
  | single hmove =>
    rcases hmove with href | hchild
    · exact .inr ⟨_, mem_of_refers href, .single ⟨w, w.self_mem_descendants, href⟩,
        Workflow.self_mem_descendants _⟩
    · exact .inl ⟨Workflow.sizeOf_lt_of_mem_child hchild,
        Workflow.mem_descendants_child w.self_mem_descendants hchild⟩
  | tail _ hmove ih =>
    rcases hmove with href | hchild
    · refine .inr ⟨_, mem_of_refers href, ?_, Workflow.self_mem_descendants _⟩
      rcases ih with ⟨-, hbelow⟩ | ⟨u, -, hleads, hbelow⟩
      · exact .single ⟨_, hbelow, href⟩
      · exact hleads.tail ⟨_, hbelow, href⟩
    · rcases ih with ⟨hlt, hbelow⟩ | ⟨u, hu, hleads, hbelow⟩
      · exact .inl ⟨(Workflow.sizeOf_lt_of_mem_child hchild).trans hlt,
          Workflow.mem_descendants_child hbelow hchild⟩
      · exact .inr ⟨u, hu, hleads, Workflow.mem_descendants_child hbelow hchild⟩

/-- A way from a workflow back to it contains a circle of references. -/
theorem circles_of_follows (h : TransGen c.Follows w w) : c.Circles := by
  rcases leads_of_follows h with ⟨hlt, -⟩ | ⟨u, hu, hleads, hbelow⟩
  · exact absurd hlt (Nat.lt_irrefl _)
  · obtain ⟨x, hwx, hxu⟩ := TransGen.head'_iff.mp hleads
    exact ⟨u, hu, TransGen.head' (hwx.of_descendant hbelow) hxu⟩

end Catalogs

namespace Registry

open Catalogs

variable {c : Catalogs} {settings : Settings.Catalog} {way via : List String} {name : String}
variable {root w v : Workflow}

/-! ## What the check reports -/

/-- **Induction over a way of the check,** which comes to workflows whose names
are not on it yet: each reference leaves fewer of the catalog, and each child is
smaller. -/
theorem way_induction {P : List String → Workflow → Prop}
    (h : ∀ way w, (∀ v, c.Follows w v → v.name ∉ way → P (way ++ [v.name]) v) → P way w)
    (way : List String) (w : Workflow) : P way w :=
  h way w fun v _ _ => way_induction h (way ++ [v.name]) v
termination_by (c.workflows.unvisited way, sizeOf w)
decreasing_by
  rename_i hmove hway
  rcases hmove with href | hchild
  · exact Prod.Lex.left _ _ (WorkflowCatalog.unvisited_append_lt (mem_of_refers href) hway)
  · rcases Nat.lt_or_eq_of_le (c.workflows.unvisited_append_le way [v.name]) with hlt | heq
    · exact Prod.Lex.left _ _ hlt
    · rw [heq]
      exact Prod.Lex.right _ (Workflow.sizeOf_lt_of_mem_child hchild)

/-- A report comes from one move. -/
theorem exists_follows_of_selfReference
    (h : checkReferences c way w = fault (.selfReference name via)) :
    ∃ v, c.Follows w v ∧ checkEntered c way v = fault (.selfReference name via) := by
  rw [checkReferences_eq] at h
  rcases bind_eq_error.mp h with h | ⟨_, -, h⟩
  · obtain ⟨before, step, after, hsteps, -, hstep⟩ := forM_eq_error.mp h
    have hmem : step ∈ w.steps := by
      rw [hsteps]
      exact List.mem_append_right before List.mem_cons_self
    cases step with
    | feature key =>
      rw [checkStep] at hstep
      cases hget : c.features.get? key <;> simp [hget, fault] at hstep
    | workflow called =>
      rw [checkStep] at hstep
      cases hget : c.workflows.get? called with
      | none => simp [hget, fault] at hstep
      | some v =>
        rw [hget] at hstep
        exact ⟨v, .inl ⟨called, hmem, hget⟩, hstep⟩
  · obtain ⟨before, v, after, hchild, -, hv⟩ := forM_eq_error.mp h
    refine ⟨v, .inr ?_, hv⟩
    rw [hchild]
    exact List.mem_append_right before List.mem_cons_self

/-- **A report gives two workflows of its name,** the one on a way from the
other. Every name on the way of the check is that of a workflow which the
present one is on a way from. -/
theorem exists_of_selfReference (hroot : ReflTransGen c.Follows root w)
    (hway : ∀ n ∈ way, ∃ u, u.name = n ∧ ReflTransGen c.Follows root u ∧
      ReflTransGen c.Follows u w)
    (h : checkReferences c way w = fault (.selfReference name via)) :
    ∃ a b, ReflTransGen c.Follows root a ∧ TransGen c.Follows a b ∧
      a.name = name ∧ b.name = name := by
  induction way, w using way_induction (c := c) with
  | h way w ih =>
    obtain ⟨v, hmove, hv⟩ := exists_follows_of_selfReference h
    rw [checkEntered] at hv
    by_cases hmem : v.name ∈ way
    · rw [if_pos hmem] at hv
      cases hv
      obtain ⟨u, hname, hrootu, huw⟩ := hway v.name hmem
      exact ⟨u, v, hrootu, TransGen.tail' huw hmove, hname, rfl⟩
    · rw [if_neg hmem] at hv
      refine ih v hmove hmem (hroot.tail hmove) (fun n hn => ?_) hv
      rcases List.mem_append.mp hn with hn | hn
      · obtain ⟨u, hname, hrootu, huw⟩ := hway n hn
        exact ⟨u, hname, hrootu, huw.tail hmove⟩
      · exact ⟨v, (List.mem_singleton.mp hn).symm, hroot.tail hmove, .refl⟩

/-! ## What the check lets through -/

/-- What is let through is let through at every move, which never comes back. -/
theorem entered_of_follows (h : checkReferences c way w = .ok ()) (hmove : c.Follows w v) :
    v.name ∉ way ∧ checkReferences c (way ++ [v.name]) v = .ok () := by
  obtain ⟨hsteps, hchildren⟩ := checkReferences_eq_ok.mp h
  rcases hmove with ⟨called, hstep, hget⟩ | hchild
  · obtain ⟨u, hget', hway, hbelow⟩ := hsteps _ hstep
    obtain rfl := Option.some.inj (hget.symm.trans hget')
    exact ⟨hway, hbelow⟩
  · exact hchildren v hchild

/-- **No name is met twice on a way that was let through.** -/
theorem name_ne_of_follows (h : checkReferences c [root.name] root = .ok ())
    (ha : ReflTransGen c.Follows root w) (hb : TransGen c.Follows w v) : v.name ≠ w.name := by
  -- the way that the check has come by to the first of the two, with its name on it
  obtain ⟨way, hmem, hw⟩ : ∃ way, w.name ∈ way ∧ checkReferences c way w = .ok () := by
    induction ha with
    | refl => exact ⟨[root.name], List.mem_cons_self, h⟩
    | tail hreach hmove ih =>
      obtain ⟨way, -, hway⟩ := ih (.head hmove hb)
      exact ⟨_, List.mem_append_right way List.mem_cons_self, (entered_of_follows hway hmove).2⟩
  have hend : v.name ∉ way ∧ ∃ more, checkReferences c (way ++ more) v = .ok () := by
    induction hb with
    | single hmove =>
      obtain ⟨hne, hok⟩ := entered_of_follows hw hmove
      exact ⟨hne, _, hok⟩
    | tail _ hmove ih =>
      obtain ⟨-, more, hmore⟩ := ih
      obtain ⟨hne, hok⟩ := entered_of_follows hmore hmove
      rw [List.append_assoc] at hok
      exact ⟨fun hv => hne (List.mem_append_left more hv), _, hok⟩
  exact fun heq => hend.1 (heq ▸ hmem)

/-! ## What a build reports -/

/-- A failure that is a report only if the check of a workflow reported it. -/
def Reported (c : Catalogs) (e : Error) : Prop :=
  ∀ name via, e = .registry (.selfReference name via) →
    ∃ w ∈ c.workflows.workflows, checkReferences c [w.name] w = fault (.selfReference name via)

theorem Reported.of_ne {e : Error} (h : ∀ name via, e ≠ .registry (.selfReference name via)) :
    Reported c e :=
  fun name via he => absurd he (h name via)

theorem featureNode_reported (e : Entry) : FailsBy (Reported c) (featureNode e) := by
  unfold featureNode
  dsimp only
  split
  · exact FailsBy.ok _
  · split
    · exact FailsBy.ok _
    · exact FailsBy.error (.of_ne (by simp))

theorem pushNode_reported (scope : String) (nodes : List Node) (n : Node) :
    FailsBy (Reported c) (pushNode scope nodes n) := by
  unfold pushNode
  split
  · exact FailsBy.error (.of_ne (by simp))
  · exact FailsBy.ok _

/-- The children come one after the other, with those below each. -/
theorem childNodes_reported {scope : String} {done : List Node} {child : List Workflow}
    (h : ∀ w ∈ child, FailsBy (Reported c) (workflowNode w)) :
    FailsBy (Reported c) (childNodes scope done child) := by
  induction child generalizing done with
  | nil =>
    rw [childNodes]
    exact FailsBy.ok _
  | cons w rest ih =>
    obtain ⟨hw, hrest⟩ := List.forall_mem_cons.mp h
    rw [childNodes]
    exact hw.bind fun n _ => (pushNode_reported scope done n).bind fun _ _ => ih hrest

theorem workflowNode_reported (w : Workflow) : FailsBy (Reported c) (workflowNode w) := by
  induction w using Workflow.below_induction with
  | h w ih =>
    cases w with
    | mk name description steps child =>
      rw [workflowNode]
      split
      · exact FailsBy.error (.of_ne (by simp))
      · exact (childNodes_reported ih).bind fun _ _ => FailsBy.ok _

theorem customRunNodes_reported : FailsBy (Reported c) (customRunNodes c) := by
  unfold customRunNodes
  split
  · exact FailsBy.ok _
  · exact (featureNode_reported _).map

theorem addFeature_reported (nodes : List Node) (e : Entry) :
    FailsBy (Reported c) (addFeature settings nodes e) := by
  unfold addFeature
  split
  · exact FailsBy.ok _
  · exact (featureNode_reported e).bind fun n _ => pushNode_reported _ nodes n

theorem addWorkflow_reported (hw : w ∈ c.workflows.workflows) (nodes : List Node) :
    FailsBy (Reported c) (addWorkflow c settings nodes w) := by
  unfold addWorkflow
  refine FailsBy.bind (fun e he name via heq => ?_) fun _ _ => ?_
  · rw [heq] at he
    exact ⟨w, hw, he⟩
  · split
    · exact FailsBy.ok _
    · exact (workflowNode_reported w).bind fun n _ => pushNode_reported _ nodes n

theorem checkKeys_ne_selfReference {keys : List String} :
    checkKeys keys ≠ fault (.selfReference name via) := by
  unfold checkKeys
  split <;> simp [fault]

theorem checkNames_ne_selfReference {scope : String} {names : List String} :
    checkNames scope names ≠ fault (.selfReference name via) := by
  unfold checkNames
  split <;> simp [fault]

/-- **A report of a build comes from the check of a workflow,** and the names
in the catalog have been found to be different before. -/
theorem exists_of_build_eq (h : build c settings = fault (.selfReference name via)) :
    (c.workflows.workflows.map (·.name)).Nodup ∧ ∃ w ∈ c.workflows.workflows,
      checkReferences c [w.name] w = fault (.selfReference name via) := by
  unfold build at h
  rcases bind_eq_error.mp h with h | ⟨_, -, h⟩
  · exact absurd h checkKeys_ne_selfReference
  rcases bind_eq_error.mp h with h | ⟨_, -, h⟩
  · exact absurd h checkNames_ne_selfReference
  rcases bind_eq_error.mp h with h | ⟨_, hnames, h⟩
  · exact absurd h checkNames_ne_selfReference
  refine ⟨checkNames_eq_ok.mp hnames, ?_⟩
  have hnodes : FailsBy (Reported c) (c.features.entries.foldlM (addFeature settings) [] >>=
      fun features => c.workflows.workflows.foldlM (addWorkflow c settings) [] >>=
        fun flows => customRunNodes c >>= fun custom =>
          .ok (⟨c, [featuresNode features, workflowsNode flows] ++ custom ++ [clearNode]⟩ :
            Registry)) := by
    refine (FailsBy.foldlM fun e _ nodes => addFeature_reported nodes e).bind fun _ _ => ?_
    refine (FailsBy.foldlM fun w hw nodes => addWorkflow_reported hw nodes).bind fun _ _ => ?_
    exact customRunNodes_reported.bind fun _ _ => FailsBy.ok _
  exact hnodes _ h name via rfl

/-- **What is reported as a reference to itself.** A build reports it only where
references lead from a workflow of the catalog back to it, or where two
different workflows of the reported name are on one way. Catalogs with a circle
of the one kind or a clash of the other are not accepted. -/
theorem build_selfReference (c : Catalogs) (settings : Settings.Catalog) :
    (∀ name via, build c settings = fault (.selfReference name via) →
      c.Circles ∨ c.Clashes name) ∧
    (c.Circles ∨ (∃ name, c.Clashes name) → ∀ r, build c settings ≠ .ok r) := by
  constructor
  · intro name via h
    obtain ⟨hunique, w, hw, h⟩ := exists_of_build_eq h
    have hstart : ∀ n ∈ [w.name], ∃ u, u.name = n ∧ ReflTransGen c.Follows w u ∧
        ReflTransGen c.Follows u w :=
      fun n hn => ⟨w, (List.mem_singleton.mp hn).symm, .refl, .refl⟩
    obtain ⟨a, b, ha, hb, haname, hbname⟩ := exists_of_selfReference .refl hstart h
    by_cases hab : a = b
    · subst hab
      exact .inl (circles_of_follows hb)
    · -- the names in the catalog are different, so not both of them are in it
      refine .inr ⟨w, hw, a, b, ha, hb, haname, hbname, hab, ?_⟩
      by_contra hboth
      push Not at hboth
      exact hab (List.inj_on_of_nodup_map hunique hboth.1 hboth.2 (haname.trans hbname.symm))
  · intro h r hr
    obtain ⟨w, hw, a, b, ha, hb, hname⟩ : ∃ w ∈ c.workflows.workflows, ∃ a b,
        ReflTransGen c.Follows w a ∧ TransGen c.Follows a b ∧ b.name = a.name := by
      rcases h with ⟨w, hw, hcircle⟩ | ⟨name, w, hw, a, b, ha, hb, haname, hbname, -⟩
      · exact ⟨w, hw, w, w, .refl, follows_of_leads hcircle, rfl⟩
      · exact ⟨w, hw, a, b, ha, hb, hbname.trans haname.symm⟩
    exact name_ne_of_follows (checkReferences_of_build hr hw) ha hb hname

/-! ## Names that clash -/

/-- A workflow that may be followed by one of the same name. -/
def encore : Workflow where
  name := "Encore"
  steps := [.feature "GRAYSCALE"]
  child := [{ name := "Encore", steps := [.feature "REMOVE_AUDIO"] }]

/-- A workflow that may be followed by a medley of its own. -/
def chorus : Workflow where
  name := "Chorus"
  steps := [.feature "GRAYSCALE"]
  child := [{ name := "Medley", steps := [.feature "REMOVE_AUDIO"] }]

/-- A medley that refers to it. -/
def medley : Workflow where
  name := "Medley"
  steps := [.workflow "Chorus"]

/-- **Names that clash are reported although nothing circles:** of a child and
the workflow that it follows, or of a child and a workflow that refers to the one
it follows. Every way to go on from any of these workflows has a plan. -/
theorem selfReference_of_clash :
    (build (concert [encore]) ⟨[], []⟩ = fault (.selfReference "Encore" ["Encore"]) ∧
      (concert [encore]).check encore = .ok () ∧ ¬ (concert [encore]).Circles) ∧
    (build (concert [chorus, medley]) ⟨[], []⟩ =
        fault (.selfReference "Medley" ["Medley", "Chorus"]) ∧
      (concert [chorus, medley]).check chorus = .ok () ∧
      (concert [chorus, medley]).check medley = .ok () ∧
      ¬ (concert [chorus, medley]).Circles) := by
  refine ⟨⟨by cbv, by cbv, ?_⟩, by cbv, by cbv, by cbv, ?_⟩
  · have hsteps : encore.descendants.flatMap (·.steps) =
        [.feature "GRAYSCALE", .feature "REMOVE_AUDIO"] := rfl
    rintro ⟨w, hw, hcircle⟩
    obtain rfl := List.mem_singleton.mp hw
    obtain ⟨v, hleads, -⟩ := TransGen.head'_iff.mp hcircle
    simp [leads_iff, hsteps] at hleads
  · have hchorus : chorus.descendants.flatMap (·.steps) =
        [.feature "GRAYSCALE", .feature "REMOVE_AUDIO"] := rfl
    have hmedley : medley.descendants.flatMap (·.steps) = [.workflow "Chorus"] := rfl
    have hend : ∀ v, ¬ (concert [chorus, medley]).Leads chorus v := by
      simp [leads_iff, hchorus]
    rintro ⟨w, hw, hcircle⟩
    obtain ⟨v, hleads, hback⟩ := TransGen.head'_iff.mp hcircle
    rcases List.mem_pair.mp hw with rfl | rfl
    · exact hend v hleads
    · -- the medley leads to the chorus, which leads nowhere
      obtain ⟨name, hname, hget⟩ := leads_iff.mp hleads
      rw [hmedley, List.mem_singleton] at hname
      cases hname
      obtain rfl : chorus = v := Option.some.inj hget
      rcases hback.cases_head with heq | ⟨u, hu, -⟩
      · exact absurd (congrArg Workflow.name heq) (by decide)
      · exact hend u hu

end Registry

end MediaPipeline
