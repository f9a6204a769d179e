import MediaPipeline.Json.Shape
import MediaPipeline.Proofs.Traversal
/-!
# Json/Records — shapes read back from what they write

Each shape is read back from the value that writes it: a list where all its
items are (`list?_list`), a number where it fits (`nat?_nat`), and the fields
of a record with the names they were given (`fields?_record`), since a record
repeats no name. A part is nested less deep than what it is a part of, so
room for a container leaves room for its parts.
-/


namespace MediaPipeline

namespace Json

variable {α : Type} {encode : α → Json} {decode : Json → Option α}
variable {names : List String} {members : List (String × Json)} {name key : String} {v : Json}

/-! ## Lists and numbers -/

/-- **A list is read back where every item of it is.** -/
theorem list?_list {xs : List α} :
    list? decode (list encode xs) = some xs ↔ ∀ x ∈ xs, decode (encode x) = some x := by
  change (xs.map encode).mapM decode = some xs ↔ _
  rw [List.mapM_map, Traversal.mapM_eq_some_self]
  rfl

@[simp] theorem text?_text (s : String) : text? (.text s) = some s := rfl

@[simp] theorem list?_list_text (xs : List String) : list? text? (list .text xs) = some xs :=
  list?_list.mpr fun _ _ => rfl

/-- Each item of a list that was read was read from a value. -/
theorem exists_of_list?_eq_some {xs : List α} {x : α} (h : list? decode v = some xs)
    (hx : x ∈ xs) : ∃ item, decode item = some x := by
  cases v with
  | array items =>
    obtain ⟨item, -, hitem⟩ := Traversal.exists_of_mapM_eq_some h hx
    exact ⟨item, hitem⟩
  | _ => cases h

/-- The bits hold a number that was read. -/
theorem lt_of_nat?_eq_some {bits n : Nat} (h : nat? bits v = some n) : n < Nat.pow 2 bits := by
  unfold nat? at h
  split at h
  · rw [Option.ite_none_right_eq_some, Option.some_inj] at h
    exact h.2 ▸ h.1
  · cases h

/-- A number is read back where the bits hold it. -/
theorem nat?_nat {bits m n : Nat} : nat? bits (nat n) = some m ↔ n < Nat.pow 2 bits ∧ n = m := by
  change (if n < Nat.pow 2 bits then some n else none) = some m ↔ _
  rw [Option.ite_none_right_eq_some, Option.some_inj]

/-! ## Records -/

@[simp] theorem Name.plain_text (s : String) : (Name.plain s).text = some s := rfl

theorem known?_plain (hmem : ∀ m ∈ members, m.1 ∈ names) (hnodup : (members.map Prod.fst).Nodup) :
    known? names (members.map fun m => (Name.plain m.1, m.2)) = some members := by
  induction members with
  | nil => rfl
  | cons m members ih =>
    obtain ⟨hname, hmem⟩ := List.forall_mem_cons.mp hmem
    obtain ⟨hnew, hnodup⟩ := List.nodup_cons.mp hnodup
    have hfresh : (members.any fun other => other.1 == m.1) = false := by
      refine List.any_eq_false.mpr fun other hother => ?_
      exact fun h => hnew (beq_iff_eq.mp h ▸ List.mem_map_of_mem hother)
    simp [known?, ih hmem hnodup, hname, hfresh]

/-- **A record is read back field by field,** whatever names beyond its own
were asked for. -/
theorem fields?_record (hmem : ∀ m ∈ members, m.1 ∈ names)
    (hnodup : (members.map Prod.fst).Nodup) : (record members).fields? names = some members :=
  known?_plain hmem hnodup

@[simp] theorem isList_record : (record members).isList = false := rfl

@[simp] theorem Fields.find?_cons (fields : Fields) :
    Fields.find? ((key, v) :: fields) name = if key = name then some v else fields.find? name := by
  unfold Fields.find?
  rw [List.find?_cons]
  by_cases h : key = name
  · simp [h]
  · simp [h, beq_false_of_ne h]

@[simp] theorem Fields.find?_nil : Fields.find? [] name = none := rfl

/-! ## Depth -/

/-- An item is nested less deep than its list. -/
theorem depth_le_itemsDepth {items : List Json} (h : v ∈ items) : v.depth ≤ itemsDepth items := by
  induction items with
  | nil => exact absurd h List.not_mem_nil
  | cons first items ih =>
    unfold itemsDepth
    rcases List.mem_cons.mp h with rfl | h
    · exact Nat.le_max_left _ _
    · exact Nat.le_trans (ih h) (Nat.le_max_right _ _)

/-- A member is nested less deep than its object. -/
theorem depth_le_membersDepth {members : List (Name × Json)} {name : Name}
    (h : (name, v) ∈ members) : v.depth ≤ membersDepth members := by
  induction members with
  | nil => exact absurd h List.not_mem_nil
  | cons first members ih =>
    unfold membersDepth
    rcases List.mem_cons.mp h with rfl | h
    · exact Nat.le_max_left _ _
    · exact Nat.le_trans (ih h) (Nat.le_max_right _ _)

theorem depth_lt_of_mem_object {members : List (Name × Json)} {name : Name}
    (h : (name, v) ∈ members) : v.depth < (object members).depth :=
  Nat.lt_succ_of_le (depth_le_membersDepth h)

theorem depth_lt_of_mem_record (h : (name, v) ∈ members) : v.depth < (record members).depth :=
  depth_lt_of_mem_object (List.mem_map.mpr ⟨(name, v), h, rfl⟩)

theorem depth_lt_of_mem_list {xs : List α} {x : α} (h : x ∈ xs) :
    (encode x).depth < (list encode xs).depth :=
  Nat.lt_succ_of_le (depth_le_itemsDepth (List.mem_map_of_mem h))

/-! ## Held values -/

theorem isHeld_record (h : ∀ m ∈ members, m.2.isHeld = true) : (record members).isHeld = true := by
  change membersHeld (members.map fun m => (Name.plain m.1, m.2)) = true
  induction members with
  | nil => rfl
  | cons m members ih =>
    obtain ⟨hm, h⟩ := List.forall_mem_cons.mp h
    simp [membersHeld, hm, ih h]

theorem isHeld_list {xs : List α} (h : ∀ x ∈ xs, (encode x).isHeld = true) :
    (list encode xs).isHeld = true := by
  change itemsHeld (xs.map encode) = true
  induction xs with
  | nil => rfl
  | cons x xs ih =>
    obtain ⟨hx, h⟩ := List.forall_mem_cons.mp h
    simp [itemsHeld, hx, ih h]

end Json

end MediaPipeline
