import MediaPipeline.Media
import MediaPipeline.Json.Shape
/-!
# Intake — what inputs a feature takes

An intake lists media types, each with the least and the greatest number of
inputs of that type, and names one of them as primary: the type that a step
is taken to produce and that decides whether two steps fit. No type is listed
twice and no range is empty. A single kind of input is checked by `check`, a
whole set of inputs by `checkAll`.

Inputs are counted in natural numbers. Where a count has 32 bits it agrees as long
as there are fewer than `2 ^ 32` inputs of one type.
-/


namespace MediaPipeline

/-- How many inputs of one media type are taken, both ends included. -/
structure CountRange where
  min : Nat
  max : Nat
  deriving DecidableEq, Repr, Inhabited

/-- Exactly one input. -/
def CountRange.one : CountRange := ⟨1, 1⟩

/-- Whether a number of inputs is taken. -/
def CountRange.contains (r : CountRange) (n : Nat) : Bool :=
  decide (r.min ≤ n) && decide (n ≤ r.max)

/-- How many inputs of which media type are taken. -/
structure Requirement where
  mediaType : MediaType
  count : CountRange
  deriving DecidableEq, Repr, Inhabited

/-- A reason to refuse inputs. -/
inductive Refusal where
  | notAccepted (mediaType : MediaType)
  | wrongCount (required : Requirement) (got : Nat)
  deriving DecidableEq, Repr

/-- The wording of a refusal. -/
def Refusal.message : Refusal → String
  | .notAccepted t => t.name ++ " input is not accepted"
  | .wrongCount r n =>
    s!"expected {r.count.min}..={r.count.max} {r.mediaType.name} input(s), got {n}"

/-- A reason why requirements make no intake. -/
inductive IntakeFault where
  | empty
  | emptyRange (requirement : Requirement)
  | repeated (mediaType : MediaType)
  | primaryNotListed (primary : MediaType)
  deriving DecidableEq, Repr

/-- The wording of a fault. -/
def IntakeFault.message : IntakeFault → String
  | .empty => "file config must declare at least one media type"
  | .emptyRange r =>
    s!"file config entry for {r.mediaType.name} has min {r.count.min} > max {r.count.max}"
  | .repeated t => s!"file config declares {t.name} more than once"
  | .primaryNotListed t => s!"primary type {t.name} is not among the declared types"

/-- The media types that requirements list. -/
def Requirement.types (rs : List Requirement) : List MediaType := rs.map (·.mediaType)

/-- The inputs a feature takes. -/
structure Intake where
  requirements : List Requirement
  primary : MediaType
  bounded : ∀ r ∈ requirements, r.count.min ≤ r.count.max
  distinct : (Requirement.types requirements).Nodup
  listed : primary ∈ Requirement.types requirements

namespace Intake

/-! ## Building an intake -/

/-- The first fault among requirements that follow others of the types
`seen`. -/
def firstFault? (seen : List MediaType) : List Requirement → Option IntakeFault
  | [] => none
  | r :: rest =>
    if r.count.max < r.count.min then some (.emptyRange r)
    else if r.mediaType ∈ seen then some (.repeated r.mediaType)
    else firstFault? (r.mediaType :: seen) rest

/-- The fault that is reported for requirements and a primary type. -/
def fault? (rs : List Requirement) (primary : MediaType) : Option IntakeFault :=
  if rs = [] then some .empty
  else
    match firstFault? [] rs with
    | some f => some f
    | none =>
      if primary ∈ Requirement.types rs then none else some (.primaryNotListed primary)

theorem firstFault?_eq_none {seen : List MediaType} {rs : List Requirement}
    (h : firstFault? seen rs = none) :
    (∀ r ∈ rs, r.count.min ≤ r.count.max) ∧ (Requirement.types rs).Nodup ∧
      ∀ r ∈ rs, r.mediaType ∉ seen := by
  induction rs generalizing seen with
  | nil => simp [Requirement.types]
  | cons r rest ih =>
    simp only [firstFault?] at h
    split at h
    · simp at h
    · rename_i hrange
      split at h
      · simp at h
      · rename_i hseen
        obtain ⟨hb, hd, hn⟩ := ih h
        refine ⟨?_, ?_, ?_⟩
        · intro r' hr'
          rcases List.mem_cons.mp hr' with rfl | hr'
          · exact Nat.not_lt.mp hrange
          · exact hb r' hr'
        · refine List.nodup_cons.mpr ⟨?_, hd⟩
          intro hmem
          obtain ⟨r', hr', heq⟩ := List.mem_map.mp hmem
          exact hn r' hr' (by rw [heq]; exact List.mem_cons_self)
        · intro r' hr'
          rcases List.mem_cons.mp hr' with rfl | hr'
          · exact hseen
          · exact fun hmem => hn r' hr' (List.mem_cons_of_mem _ hmem)

theorem fault?_eq_none {rs : List Requirement} {primary : MediaType}
    (h : fault? rs primary = none) :
    (∀ r ∈ rs, r.count.min ≤ r.count.max) ∧ (Requirement.types rs).Nodup ∧
      primary ∈ Requirement.types rs := by
  simp only [fault?] at h
  split at h
  · simp at h
  · split at h
    · simp at h
    · rename_i hfirst
      split at h
      · rename_i hmem
        exact ⟨(firstFault?_eq_none hfirst).1, (firstFault?_eq_none hfirst).2.1, hmem⟩
      · simp at h

/-- The intake with the given requirements and primary type, or the first
fault in them. -/
def ofRequirements (rs : List Requirement) (primary : MediaType) : Except IntakeFault Intake :=
  match h : fault? rs primary with
  | some f => .error f
  | none =>
    .ok ⟨rs, primary, (fault?_eq_none h).1, (fault?_eq_none h).2.1, (fault?_eq_none h).2.2⟩

/-- Exactly one input of one type. -/
def single (t : MediaType) : Intake where
  requirements := [⟨t, .one⟩]
  primary := t
  bounded := by simp [CountRange.one]
  distinct := by simp [Requirement.types]
  listed := by simp [Requirement.types]

/-- A media type added to the end of a list that does not have it yet. -/
def addType (ts : List MediaType) (t : MediaType) : List MediaType :=
  if t ∈ ts then ts else ts ++ [t]

theorem addType_nodup {ts : List MediaType} (h : ts.Nodup) (t : MediaType) :
    (addType ts t).Nodup := by
  simp only [addType]
  split
  · exact h
  · rename_i hmem
    refine List.nodup_append.mpr ⟨h, by simp, ?_⟩
    intro a ha b hb
    rw [List.mem_singleton.mp hb]
    exact fun heq => hmem (heq ▸ ha)

theorem mem_addType {ts : List MediaType} {s : MediaType} (h : s ∈ ts) (t : MediaType) :
    s ∈ addType ts t := by
  simp only [addType]
  split
  · exact h
  · exact List.mem_append_left _ h

/-- Media types listed once each, in the order in which they first occur. -/
def distinctTypes (primary : MediaType) (others : List MediaType) : List MediaType :=
  others.foldl addType [primary]

theorem foldl_addType {ts : List MediaType} {s : MediaType} (others : List MediaType)
    (hd : ts.Nodup) (hs : s ∈ ts) :
    (others.foldl addType ts).Nodup ∧ s ∈ others.foldl addType ts := by
  induction others generalizing ts with
  | nil => exact ⟨hd, hs⟩
  | cons t rest ih => exact ih (addType_nodup hd t) (mem_addType hs t)

theorem types_map (ts : List MediaType) (c : CountRange) :
    Requirement.types (ts.map fun t => ⟨t, c⟩) = ts := by
  induction ts with
  | nil => rfl
  | cons t rest ih => exact congrArg (t :: ·) ih

theorem distinctTypes_nodup (primary : MediaType) (others : List MediaType) :
    (distinctTypes primary others).Nodup :=
  (foldl_addType others (List.nodup_cons.mpr ⟨by simp, List.nodup_nil⟩)
    (List.mem_singleton_self primary)).1

theorem primary_mem_distinctTypes (primary : MediaType) (others : List MediaType) :
    primary ∈ distinctTypes primary others :=
  (foldl_addType others (List.nodup_cons.mpr ⟨by simp, List.nodup_nil⟩)
    (List.mem_singleton_self primary)).2

/-- At most one input of each of the given types; repetitions are
ignored. -/
def optional (primary : MediaType) (others : List MediaType) : Intake where
  requirements := (distinctTypes primary others).map fun t => ⟨t, ⟨0, 1⟩⟩
  primary := primary
  bounded := by
    intro r hr
    obtain ⟨t, _, rfl⟩ := List.mem_map.mp hr
    exact Nat.zero_le 1
  distinct := by
    rw [types_map]
    exact distinctTypes_nodup primary others
  listed := by
    rw [types_map]
    exact primary_mem_distinctTypes primary others

/-! ## Checking inputs -/

/-- What is required of the inputs of one type, if that type is taken. -/
def requirement? (i : Intake) (t : MediaType) : Option Requirement :=
  i.requirements.find? (·.mediaType = t)

/-- Checks a number of inputs of one type. -/
def check (i : Intake) (t : MediaType) (n : Nat) : Except Refusal Unit :=
  match i.requirement? t with
  | none => .error (.notAccepted t)
  | some r => if r.count.contains n then .ok () else .error (.wrongCount r n)

/-- Whether a number of inputs of one type is taken. -/
def accepts (i : Intake) (t : MediaType) (n : Nat) : Bool := (i.check t n).isOk

/-- Checks that a requirement whose type does not occur does not need any. -/
def checkAbsent (inputs : List MediaType) (r : Requirement) : Except Refusal Unit :=
  if r.mediaType ∉ inputs ∧ 0 < r.count.min then .error (.wrongCount r 0) else .ok ()

/-- Checks a whole set of inputs: the types that occur, in the order of media
types, and then the types that do not. -/
def checkAll (i : Intake) (inputs : List MediaType) : Except Refusal Unit := do
  (MediaType.all.filter (· ∈ inputs)).forM fun t => i.check t (inputs.count t)
  i.requirements.forM (checkAbsent inputs)

end Intake

/-! ## JSON form -/

/-- A media type is written by its name. -/
def MediaType.toJson (t : MediaType) : Json := .text t.name

/-- The media type that a value names. -/
def MediaType.ofJson? (v : Json) : Option MediaType := (Json.choice? Json.maxDepth v).bind MediaType.named?

/-- A container is written by its name. -/
def Container.toJson (c : Container) : Json := .text c.extension

/-- The container that a value names. -/
def Container.ofJson? (v : Json) : Option Container := (Json.choice? Json.maxDepth v).bind Container.named?

/-- A range as a record. -/
def CountRange.toJson (r : CountRange) : Json :=
  .record [("min", .nat r.min), ("max", .nat r.max)]

/-- The range that a value writes; its ends fit thirty-two bits. -/
def CountRange.ofJson? (v : Json) : Option CountRange := do
  let fields ← Json.fields? ["min", "max"] v
  let min ← fields.required "min" (Json.nat? 32)
  let max ← fields.required "max" (Json.nat? 32)
  some ⟨min, max⟩

/-- A requirement as a record. -/
def Requirement.toJson (r : Requirement) : Json :=
  .record [("media_type", r.mediaType.toJson), ("count", r.count.toJson)]

/-- The requirement that a value writes. -/
def Requirement.ofJson? (v : Json) : Option Requirement := do
  let fields ← Json.fields? ["media_type", "count"] v
  let mediaType ← fields.required "media_type" MediaType.ofJson?
  let count ← fields.required "count" CountRange.ofJson?
  some ⟨mediaType, count⟩

/-- An intake as a record. -/
def Intake.toJson (i : Intake) : Json :=
  .record [("types", .list Requirement.toJson i.requirements), ("primary_type", i.primary.toJson)]

/-- The intake that a value writes, if it has no fault. -/
def Intake.ofJson? (v : Json) : Option Intake := do
  let fields ← Json.fields? ["types", "primary_type"] v
  let requirements ← fields.required "types" (Json.list? Requirement.ofJson?)
  let primary ← fields.required "primary_type" MediaType.ofJson?
  (Intake.ofRequirements requirements primary).toOption

/-- The intake that a JSON text writes. -/
def Intake.ofText? (s : String) : Option Intake := (Json.read? s).bind Intake.ofJson?

end MediaPipeline
