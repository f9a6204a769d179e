import MediaPipeline.Command
import MediaPipeline.Event.Basic
import MediaPipeline.Proofs.Json.Records
import MediaPipeline.Registry.Selection
import MediaPipeline.Workflow.Json
/-!
# Json/Formats — formats read back from what they write

A workflow, a selection, a command and an announcement are each read back from
the record that writes them. What a record leaves out is the default of the
field, an announcement's tag is no name of its fields, and a workflow is
nested no deeper than the room that reading is given. Only numbers can stand
in the way: they are read back where sixty-four bits hold them
(`formats_read_back`).
-/


namespace MediaPipeline

open Json

/-! ## Workflows -/

namespace Step

theorem depth_toJson (s : Step) : s.toJson.depth = 1 := by
  cases s <;> rfl

theorem read?_toJson (s : Step) {room : Nat} (h : s.toJson.depth ≤ room) :
    read? room s.toJson = some s := by
  obtain ⟨room, rfl⟩ := Nat.exists_eq_add_of_le' (s.depth_toJson ▸ h)
  cases s <;>
    simp [read?, toJson, fields?_record, Fields.required, Fields.find?_cons, choice?, text?,
      ofKind?]

end Step

namespace Workflow

/-- The members of the record that writes a workflow. -/
def members (w : Workflow) : List (String × Json) :=
  [("name", .text w.name), ("description", .text w.description),
    ("steps", .list Step.toJson w.steps)] ++
    if w.child = [] then [] else [("child", .list toJson w.child)]

theorem childJson_eq_map (ws : List Workflow) : childJson ws = ws.map toJson := by
  induction ws with
  | nil => rfl
  | cons w ws ih => rw [childJson, ih, List.map_cons]

theorem toJson_eq_record (w : Workflow) : w.toJson = .record w.members := by
  obtain ⟨name, description, steps, child⟩ := w
  cases child with
  | nil => rfl
  | cons v vs => simp [toJson, members, childJson_eq_map, list]

theorem fields?_members (w : Workflow) :
    (record w.members).fields? ["name", "description", "steps", "child"] = some w.members := by
  apply fields?_record <;> unfold members <;> split <;> simp

/-- **A workflow is read back where there is room for it.** The induction is
over the workflow and those below it, with the room general. -/
theorem read?_toJson (w : Workflow) {room : Nat} (h : w.toJson.depth ≤ room) :
    read? room w.toJson = some w := by
  induction w using Workflow.below_induction generalizing room with
  | h w ih =>
    rw [toJson_eq_record] at h ⊢
    have hsteps : (list Step.toJson w.steps).depth < (record w.members).depth := by
      have hmem : ("steps", list Step.toJson w.steps) ∈ w.members := by simp [members]
      exact depth_lt_of_mem_record hmem
    have hchild (v : Workflow) (hv : v ∈ w.child) :
        (list toJson w.child).depth < (record w.members).depth := by
      have hmem : ("child", list toJson w.child) ∈ w.members := by
        simp [members, List.ne_nil_of_mem hv]
      exact depth_lt_of_mem_record hmem
    obtain ⟨room, rfl⟩ : ∃ below, room = below + 2 := by
      have hlist : 0 < (list Step.toJson w.steps).depth := Nat.succ_pos _
      exact ⟨room - 2, by omega⟩
    have hreadSteps : list? (Step.read? room) (list Step.toJson w.steps) = some w.steps := by
      refine list?_list.mpr fun s hs => s.read?_toJson ?_
      have hs : s.toJson.depth < (list Step.toJson w.steps).depth := depth_lt_of_mem_list hs
      omega
    have hreadChild : list? (fun v => read? room v) (list toJson w.child) = some w.child := by
      refine list?_list.mpr fun v hv => ih v hv ?_
      have hlist := hchild v hv
      have hv : v.toJson.depth < (list toJson w.child).depth := depth_lt_of_mem_list hv
      omega
    rw [read?, fields?_members]
    obtain ⟨name, description, steps, child⟩ := w
    by_cases hnone : child = []
    · simp [members, Fields.required, Fields.withDefault, hreadSteps, hnone]
    · simp [members, Fields.required, Fields.withDefault, hreadSteps, hreadChild, hnone]

theorem ofJson?_toJson (w : Workflow) : ofJson? w.toJson = some w :=
  w.read?_toJson (Nat.le_refl _)

end Workflow

/-! ## Selections and commands -/

/-- A selection is read back where its indices fit. -/
theorem Selection.ofJson?_toJson (s : Selection) :
    ofJson? s.toJson = some s ↔ ∀ n ∈ s.child, n < Nat.pow 2 64 := by
  obtain ⟨path, child⟩ := s
  have hchild : list? (nat? 64) (list nat child) = some child ↔ ∀ n ∈ child, n < Nat.pow 2 64 := by
    simp only [list?_list, nat?_nat, and_true]
  rw [← hchild]
  cases child with
  | nil => simp [ofJson?, toJson, fields?_record, Fields.required, Fields.withDefault, list?, list]
  | cons n ns =>
    simp [ofJson?, toJson, fields?_record, Fields.required, Fields.withDefault,
      Option.bind_eq_some_iff]

theorem Container.option?_toJson (c : Container) : option? ofJson? c.toJson = some (some c) := by
  cases c <;> rfl

theorem Command.ofJson?_toJson (c : Command) : ofJson? c.toJson = some c := by
  obtain ⟨args, container⟩ := c
  cases container with
  | none => simp [ofJson?, toJson, fields?_record, Fields.required, Fields.withDefault]
  | some container =>
    simp [ofJson?, toJson, fields?_record, Fields.required, Fields.withDefault,
      Container.option?_toJson]

/-! ## Announcements -/

namespace Announcement

/-- The numbers that an announcement tells. -/
def numbers : Announcement → List Nat
  | .compiled steps => [steps]
  | .stepStarted index _ _ _ => [index]
  | .stepCompleted index _ elapsedMs => [index, elapsedMs]
  | .stepFailed index _ _ => [index]
  | .succeeded steps => [steps]
  | _ => []

/-- Every part of the record is held. -/
theorem isHeld_toJson (a : Announcement) : a.toJson.isHeld = true := by
  refine isHeld_record (List.forall_mem_cons.mpr ⟨rfl, ?_⟩)
  cases a with
  | selected commands => simpa [fields] using isHeld_list fun _ _ => rfl
  | _ => simp [fields, isHeld, nat]

/-- No field has the name of the tag. -/
theorem ne_tagName_of_mem_fields (a : Announcement) : ∀ m ∈ a.fields, m.1 ≠ tagName := by
  cases a <;> simp [fields, tagName]

/-- **The tag is told from the fields,** since none of them has its name. -/
theorem untag?_toJson (a : Announcement) : untag? a.toJson = some (a.tag, .record a.fields) := by
  have htag : a.fields.filter (fun m => m.1 == tagName) = [] :=
    List.filter_eq_nil_iff.mpr fun m hm => by simpa using a.ne_tagName_of_mem_fields m hm
  have hrest : a.fields.filter (fun m => some m.1 != some tagName) = a.fields :=
    List.filter_eq_self.mpr fun m hm => by simpa using a.ne_tagName_of_mem_fields m hm
  simp [untag?, toJson, record, List.filter_map, Function.comp_def, htag, hrest]

/-- The fields are read back where the numbers among them fit. -/
theorem ofFields?_record (a : Announcement) :
    ofFields? a.tag (.record a.fields) = some a ↔ ∀ n ∈ a.numbers, n < Nat.pow 2 64 := by
  cases a <;>
    simp [ofFields?, tag, fields, numbers, fields?_record, Fields.required,
      Option.bind_eq_some_iff, nat?_nat]

/-- An announcement is read back where its numbers fit. -/
theorem ofJson?_toJson (a : Announcement) :
    ofJson? a.toJson = some a ↔ ∀ n ∈ a.numbers, n < Nat.pow 2 64 := by
  rw [← ofFields?_record, ofJson?, isHeld_toJson, untag?_toJson]
  rfl

end Announcement

/-- **The formats are read back from what they write:** workflows and commands
as they are, selections and announcements where sixty-four bits hold their
numbers. -/
theorem formats_read_back :
    (∀ w : Workflow, Workflow.ofJson? w.toJson = some w) ∧
    (∀ s : Selection, Selection.ofJson? s.toJson = some s ↔ ∀ n ∈ s.child, n < Nat.pow 2 64) ∧
    (∀ c : Command, Command.ofJson? c.toJson = some c) ∧
    (∀ a : Announcement,
      Announcement.ofJson? a.toJson = some a ↔ ∀ n ∈ a.numbers, n < Nat.pow 2 64) :=
  ⟨Workflow.ofJson?_toJson, Selection.ofJson?_toJson, Command.ofJson?_toJson,
    Announcement.ofJson?_toJson⟩

end MediaPipeline
