import MediaPipeline.Intake
import MediaPipeline.Proofs.Json.Records
import MediaPipeline.Proofs.Json.Text
/-!
# Intake/Validity — every intake can be built

Requirements and a primary type make an intake where they are `Valid`, and the
intake has them as they were given (`ofRequirements_eq_ok`). Every intake is valid,
so building it again from its parts gives it back, whichever way it came about;
`single` and `optional` build what their requirements would (`ofRequirements_single`,
`ofRequirements_optional`). A value is read in two stages, its parts and then their
check (`ofJson?_eq_some`), and the check passes for whatever an intake writes: what
stands in the way of reading an intake back are counts that thirty-two bits do not
hold, and a read intake has none (`intakes_valid`).
-/


namespace MediaPipeline

open Json

variable {rs : List Requirement} {primary t : MediaType} {i : Intake} {v : Json}

namespace Intake

/-! ## Building an intake -/

/-- What requirements and a primary type have to be to make an intake. -/
structure Valid (rs : List Requirement) (primary : MediaType) : Prop where
  nonempty : rs ≠ []
  bounded : ∀ r ∈ rs, r.count.min ≤ r.count.max
  distinct : (Requirement.types rs).Nodup
  listed : primary ∈ Requirement.types rs

/-- The intake that valid parts make. -/
def Valid.intake (h : Valid rs primary) : Intake :=
  ⟨rs, primary, h.bounded, h.distinct, h.listed⟩

/-- Every intake is valid. -/
theorem valid (i : Intake) : Valid i.requirements i.primary where
  nonempty h := List.ne_nil_of_mem i.listed (List.map_eq_nil_iff.mpr h)
  bounded := i.bounded
  distinct := i.distinct
  listed := i.listed

/-- No fault is found where all ranges hold a number and every type is new. The
induction is over the requirements that are left, with the types seen general. -/
theorem firstFault?_eq_none_of {seen : List MediaType}
    (hbounded : ∀ r ∈ rs, r.count.min ≤ r.count.max) (hdistinct : (Requirement.types rs).Nodup)
    (hnew : ∀ r ∈ rs, r.mediaType ∉ seen) : firstFault? seen rs = none := by
  induction rs generalizing seen with
  | nil => rfl
  | cons r rs ih =>
    obtain ⟨hrange, hbounded⟩ := List.forall_mem_cons.mp hbounded
    obtain ⟨hfresh, hdistinct⟩ := List.nodup_cons.mp hdistinct
    obtain ⟨hseen, hnew⟩ := List.forall_mem_cons.mp hnew
    rw [firstFault?, if_neg (Nat.not_lt.mpr hrange), if_neg hseen]
    -- what was new so far is new once this type is seen, since no later one has it
    refine ih hbounded hdistinct fun r' hr' hmem => ?_
    rcases List.mem_cons.mp hmem with heq | hmem
    · exact hfresh (List.mem_map.mpr ⟨r', hr', heq⟩)
    · exact hnew r' hr' hmem

/-- **There is no fault in what is valid,** and in nothing else. -/
theorem fault?_eq_none_iff : fault? rs primary = none ↔ Valid rs primary := by
  constructor
  · intro h
    obtain ⟨hbounded, hdistinct, hlisted⟩ := fault?_eq_none h
    exact (⟨rs, primary, hbounded, hdistinct, hlisted⟩ : Intake).valid
  · intro h
    have hfirst : firstFault? [] rs = none :=
      firstFault?_eq_none_of h.bounded h.distinct fun _ _ => List.not_mem_nil
    rw [fault?, if_neg h.nonempty, hfirst]
    exact if_pos h.listed

/-- **An intake is built from its own parts,** and from no others. -/
theorem ofRequirements_eq_ok :
    ofRequirements rs primary = .ok i ↔ i.requirements = rs ∧ i.primary = primary := by
  constructor
  · intro h
    unfold ofRequirements at h
    split at h
    · cases h
    · cases h
      exact ⟨rfl, rfl⟩
  · rintro ⟨rfl, rfl⟩
    unfold ofRequirements
    split
    · rename_i f hfault
      rw [fault?_eq_none_iff.mpr i.valid] at hfault
      cases hfault
    · rfl

/-- Requirements and a primary type make an intake where they are valid. -/
theorem exists_ofRequirements : (∃ i, ofRequirements rs primary = .ok i) ↔ Valid rs primary := by
  constructor
  · rintro ⟨i, h⟩
    obtain ⟨rfl, rfl⟩ := ofRequirements_eq_ok.mp h
    exact i.valid
  · intro h
    exact ⟨h.intake, ofRequirements_eq_ok.mpr ⟨rfl, rfl⟩⟩

theorem ofRequirements_single (t : MediaType) :
    ofRequirements [⟨t, .one⟩] t = .ok (single t) :=
  ofRequirements_eq_ok.mpr ⟨rfl, rfl⟩

theorem ofRequirements_optional (primary : MediaType) (others : List MediaType) :
    ofRequirements ((distinctTypes primary others).map fun t => ⟨t, ⟨0, 1⟩⟩) primary =
      .ok (optional primary others) :=
  ofRequirements_eq_ok.mpr ⟨rfl, rfl⟩

/-! ### Types listed once -/

theorem mem_foldl_addType {ts : List MediaType} (others : List MediaType) :
    t ∈ others.foldl addType ts ↔ t ∈ ts ∨ t ∈ others := by
  induction others generalizing ts with
  | nil => simp
  | cons s others ih =>
    have hadd : t ∈ addType ts s ↔ t ∈ ts ∨ t = s := by
      unfold addType
      split
      · rename_i hs
        exact ⟨.inl, fun h => h.elim id fun heq => heq ▸ hs⟩
      · simp
    rw [List.foldl_cons, ih, hadd, List.mem_cons, or_assoc]

/-- Types are added at the end, so a list keeps its first one. -/
theorem prefix_foldl_addType (ts others : List MediaType) : ts <+: others.foldl addType ts := by
  induction others generalizing ts with
  | nil => exact List.prefix_rfl
  | cons s others ih =>
    refine List.IsPrefix.trans ?_ (ih (addType ts s))
    unfold addType
    split
    · exact List.prefix_rfl
    · exact List.prefix_append ts [s]

theorem head?_distinctTypes (primary : MediaType) (others : List MediaType) :
    (distinctTypes primary others).head? = some primary := by
  obtain ⟨rest, hrest⟩ := prefix_foldl_addType [primary] others
  rw [distinctTypes, ← hrest]
  rfl

theorem mem_distinctTypes {others : List MediaType} :
    t ∈ distinctTypes primary others ↔ t = primary ∨ t ∈ others := by
  rw [distinctTypes, mem_foldl_addType, List.mem_singleton]

end Intake

/-! ## Reading an intake -/

/-- Thirty-two bits hold both ends of a range. -/
def CountRange.Fits (c : CountRange) : Prop := c.min < Nat.pow 2 32 ∧ c.max < Nat.pow 2 32

instance (c : CountRange) : Decidable c.Fits := inferInstanceAs (Decidable (_ ∧ _))

theorem MediaType.ofJson?_toJson (t : MediaType) : ofJson? t.toJson = some t := by
  cases t <;> rfl

theorem CountRange.ofJson?_toJson (c : CountRange) : ofJson? c.toJson = some c ↔ c.Fits := by
  simp [ofJson?, toJson, Fits, fields?_record, Fields.required, Option.bind_eq_some_iff, nat?_nat]

theorem Requirement.ofJson?_toJson (r : Requirement) :
    ofJson? r.toJson = some r ↔ r.count.Fits := by
  rw [← CountRange.ofJson?_toJson]
  obtain ⟨t, c⟩ := r
  simp [ofJson?, toJson, fields?_record, Fields.required, Option.bind_eq_some_iff,
    MediaType.ofJson?_toJson]

/-- The ends of a range that was read fit. -/
theorem CountRange.fits_of_ofJson? {c : CountRange} (h : ofJson? v = some c) : c.Fits := by
  simp only [ofJson?, Fields.required, Option.bind_eq_bind, Option.bind_eq_some_iff,
    Option.some_inj] at h
  obtain ⟨_, -, min, ⟨_, -, hmin⟩, max, ⟨_, -, hmax⟩, rfl⟩ := h
  exact ⟨lt_of_nat?_eq_some hmin, lt_of_nat?_eq_some hmax⟩

theorem Requirement.fits_of_ofJson? {r : Requirement} (h : ofJson? v = some r) : r.count.Fits := by
  simp only [ofJson?, Fields.required, Option.bind_eq_bind, Option.bind_eq_some_iff,
    Option.some_inj] at h
  obtain ⟨_, -, _, -, c, ⟨_, -, hc⟩, rfl⟩ := h
  exact CountRange.fits_of_ofJson? hc

theorem CountRange.legible_toJson {c : CountRange} (h : c.Fits) : c.toJson.Legible := by
  have hbits : Nat.pow 2 32 ≤ Nat.pow 2 64 := Nat.pow_le_pow_right (by decide) (by decide)
  exact .pair (by decide) (by decide) (.nat (Nat.lt_of_lt_of_le h.1 hbits))
    (.nat (Nat.lt_of_lt_of_le h.2 hbits))

theorem Requirement.legible_toJson {r : Requirement} (h : r.count.Fits) : r.toJson.Legible :=
  .pair (by decide) (by decide) (.text _) (CountRange.legible_toJson h)

namespace Intake

/-- The requirements and the primary type that a value writes, valid or not. -/
def parts? (v : Json) : Option (List Requirement × MediaType) := do
  let fields ← Json.fields? ["types", "primary_type"] v
  let requirements ← fields.required "types" (Json.list? Requirement.ofJson?)
  let primary ← fields.required "primary_type" MediaType.ofJson?
  some (requirements, primary)

/-- How requirements and a primary type are written, valid or not. -/
def written (rs : List Requirement) (primary : MediaType) : Json :=
  .record [("types", .list Requirement.toJson rs), ("primary_type", primary.toJson)]

theorem ofJson?_eq_bind (v : Json) :
    ofJson? v = (parts? v).bind fun p => (ofRequirements p.1 p.2).toOption := by
  simp only [ofJson?, parts?, Option.bind_eq_bind, Option.bind_assoc, Option.bind_some]

/-- **An intake is read from what writes its parts.** -/
theorem ofJson?_eq_some :
    ofJson? v = some i ↔ parts? v = some (i.requirements, i.primary) := by
  rw [ofJson?_eq_bind, Option.bind_eq_some_iff]
  constructor
  · rintro ⟨⟨rs, primary⟩, hparts, h⟩
    cases hbuilt : ofRequirements rs primary with
    | error f =>
      rw [hbuilt] at h
      cases h
    | ok built =>
      rw [hbuilt] at h
      cases h
      obtain ⟨rfl, rfl⟩ := ofRequirements_eq_ok.mp hbuilt
      exact hparts
  · intro hparts
    refine ⟨_, hparts, ?_⟩
    rw [ofRequirements_eq_ok.mpr ⟨rfl, rfl⟩]
    rfl

/-- Parts are read back where their counts fit. -/
theorem parts?_written :
    parts? (written rs primary) = some (rs, primary) ↔ ∀ r ∈ rs, r.count.Fits := by
  simp only [← Requirement.ofJson?_toJson, ← list?_list]
  simp [parts?, written, fields?_record, Fields.required, Option.bind_eq_some_iff,
    MediaType.ofJson?_toJson]

/-- The counts of a read intake fit. -/
theorem fits_of_ofJson? (h : ofJson? v = some i) : ∀ r ∈ i.requirements, r.count.Fits := by
  intro r hr
  have hparts := ofJson?_eq_some.mp h
  simp only [parts?, Fields.required, Option.bind_eq_bind, Option.bind_eq_some_iff,
    Option.some_inj, Prod.mk.injEq] at hparts
  obtain ⟨_, -, _, ⟨_, -, hlist⟩, _, -, rfl, -⟩ := hparts
  obtain ⟨item, hitem⟩ := exists_of_list?_eq_some hlist hr
  exact Requirement.fits_of_ofJson? hitem

/-! ### From a text -/

theorem ofText?_eq_some {s : String} :
    ofText? s = some i ↔ (read? s).bind parts? = some (i.requirements, i.primary) := by
  simp only [ofText?, Option.bind_eq_some_iff, ofJson?_eq_some]

/-- A text is read as an intake where the parts it writes are valid. -/
theorem exists_ofText? {s : String} :
    (∃ i, ofText? s = some i) ↔
      ∃ rs primary, (read? s).bind parts? = some (rs, primary) ∧ Valid rs primary := by
  constructor
  · rintro ⟨i, h⟩
    exact ⟨_, _, ofText?_eq_some.mp h, i.valid⟩
  · rintro ⟨rs, primary, hparts, h⟩
    exact ⟨h.intake, ofText?_eq_some.mpr hparts⟩

theorem legible_written (h : ∀ r ∈ rs, r.count.Fits) : (written rs primary).Legible :=
  .pair (by decide) (by decide) (.list fun r hr => Requirement.legible_toJson (h r hr)) (.text _)

/-- The text of parts whose counts fit is read as the parts. -/
theorem parts?_read?_written (h : ∀ r ∈ rs, r.count.Fits) :
    (read? (written rs primary).compact).bind parts? = some (rs, primary) := by
  rw [read?_compact (legible_written h)]
  exact parts?_written.mpr h

/-- **The text of an intake is read back where its counts fit.** -/
theorem ofText?_compact (i : Intake) :
    ofText? i.toJson.compact = some i ↔ ∀ r ∈ i.requirements, r.count.Fits := by
  constructor
  · intro h
    obtain ⟨v, -, hv⟩ := Option.bind_eq_some_iff.mp h
    exact fits_of_ofJson? hv
  · exact fun h => ofText?_eq_some.mpr (parts?_read?_written h)

/-! ## Where intakes come from -/

/-- An intake that was built or read, from counts of thirty-two bits. -/
inductive Made : Intake → Prop
  | ofRequirements {built : Intake} {rs : List Requirement} {primary : MediaType}
      (hcounts : ∀ r ∈ rs, r.count.Fits) (h : ofRequirements rs primary = .ok built) : Made built
  | ofText {read : Intake} {s : String} (h : ofText? s = some read) : Made read
  | single (t : MediaType) : Made (single t)
  | optional (primary : MediaType) (others : List MediaType) : Made (optional primary others)

/-- The counts of what was built or read fit. -/
theorem Made.fits (h : i.Made) : ∀ r ∈ i.requirements, r.count.Fits := by
  cases h with
  | ofRequirements hcounts h =>
    obtain ⟨rfl, -⟩ := ofRequirements_eq_ok.mp h
    exact hcounts
  | ofText h =>
    obtain ⟨v, -, hv⟩ := Option.bind_eq_some_iff.mp h
    exact fits_of_ofJson? hv
  -- neither of these goes through the check, but their counts are fixed
  | single t =>
    have hone : CountRange.one.Fits := by decide
    exact List.forall_mem_singleton.mpr hone
  | optional primary others =>
    have hcount : (⟨0, 1⟩ : CountRange).Fits := by decide
    exact List.forall_mem_map.mpr fun t _ => hcount

/-- **Every intake is valid, and is read back from its text.** Building and reading
accept what is valid and nothing else, and keep what they are given. One type alone,
and any types at most once, make what building from their requirements makes. -/
theorem intakes_valid :
    (∀ i : Intake, Valid i.requirements i.primary) ∧
    (∀ rs primary, (∃ i, ofRequirements rs primary = .ok i) ↔ Valid rs primary) ∧
    (∀ rs primary i, ofRequirements rs primary = .ok i ↔
      i.requirements = rs ∧ i.primary = primary) ∧
    (∀ s, (∃ i, ofText? s = some i) ↔
      ∃ rs primary, (read? s).bind parts? = some (rs, primary) ∧ Valid rs primary) ∧
    (∀ s i, ofText? s = some i ↔ (read? s).bind parts? = some (i.requirements, i.primary)) ∧
    (∀ rs primary, (∀ r ∈ rs, r.count.Fits) →
      ((∃ i, ofText? (written rs primary).compact = some i) ↔ Valid rs primary)) ∧
    (∀ t, ofRequirements [⟨t, .one⟩] t = .ok (single t)) ∧
    (∀ primary others, ∃ ts : List MediaType, ts.Nodup ∧ ts.head? = some primary ∧
      (∀ t, t ∈ ts ↔ t = primary ∨ t ∈ others) ∧
      ofRequirements (ts.map fun t => ⟨t, ⟨0, 1⟩⟩) primary = .ok (optional primary others)) ∧
    (∀ i : Intake, i.Made → ofText? i.toJson.compact = some i) := by
  refine ⟨valid, fun _ _ => exists_ofRequirements, fun _ _ _ => ofRequirements_eq_ok,
    fun _ => exists_ofText?, fun _ _ => ofText?_eq_some, fun rs primary hcounts => ?_,
    ofRequirements_single, fun primary others => ?_, fun i h => (ofText?_compact i).mpr h.fits⟩
  · rw [exists_ofText?, parts?_read?_written hcounts]
    constructor
    · rintro ⟨_, _, hparts, h⟩
      cases hparts
      exact h
    · exact fun h => ⟨rs, primary, rfl, h⟩
  · exact ⟨distinctTypes primary others, distinctTypes_nodup primary others,
      head?_distinctTypes primary others, fun _ => mem_distinctTypes,
      ofRequirements_optional primary others⟩

end Intake

end MediaPipeline
