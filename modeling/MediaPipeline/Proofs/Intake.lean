import MediaPipeline.Proofs.Keyed
import MediaPipeline.Proofs.Traversal
import MediaPipeline.Intake
/-!
# Intake — which inputs are taken

An intake is asked in two ways. `check` asks about a number of inputs of one
media type, and reads the requirement for that type alone (`check_eq_ok`).
`checkAll` asks about a whole set of inputs, where a type that does not occur
counts as none (`checkAll_eq_ok`). On a single input the two agree only where
nothing else is needed (`checkAll_singleton`): an intake that requires inputs
of two types takes one of either by the first check and never by the second.

A whole set is looked at through its counts alone (`checkAll_congr`), so the
order in which inputs are given decides neither whether they are taken nor what
is said against them (`checkAll_by_count`).
-/


namespace MediaPipeline

open Traversal

namespace Intake

variable {i : Intake} {t : MediaType} {q : Requirement} {n : Nat} {inputs others : List MediaType}
variable {why : Refusal}

/-! ## One type -/

/-- No two requirements are for one type, so a requirement is found by its
type. -/
theorem requirement?_eq_some :
    i.requirement? t = some q ↔ q ∈ i.requirements ∧ q.mediaType = t :=
  Keyed.find?_key i.distinct

theorem contains_iff {r : CountRange} : r.contains n = true ↔ r.min ≤ n ∧ n ≤ r.max := by
  simp [CountRange.contains]

/-- **A number of inputs of one type is taken** where the type is listed with
a range that holds the number. -/
theorem check_eq_ok :
    i.check t n = .ok () ↔
      ∃ q ∈ i.requirements, q.mediaType = t ∧ q.count.min ≤ n ∧ n ≤ q.count.max := by
  unfold check
  cases hreq : i.requirement? t with
  | none =>
    constructor
    · intro h
      cases h
    · rintro ⟨q, hq, ht, -⟩
      rw [requirement?_eq_some.mpr ⟨hq, ht⟩] at hreq
      cases hreq
  | some q =>
    obtain ⟨hq, ht⟩ := requirement?_eq_some.mp hreq
    have honly : ∀ p ∈ i.requirements, p.mediaType = t → p = q := by
      intro p hp hpt
      have hsame := requirement?_eq_some.mpr ⟨hp, hpt⟩
      rw [hreq] at hsame
      exact (Option.some.inj hsame).symm
    by_cases hcount : q.count.contains n = true
    · simp only [if_pos hcount, true_iff]
      exact ⟨q, hq, ht, contains_iff.mp hcount⟩
    · simp only [if_neg hcount, reduceCtorEq, false_iff]
      rintro ⟨p, hp, hpt, hrange⟩
      rw [honly p hp hpt] at hrange
      exact hcount (contains_iff.mpr hrange)

/-! ## A whole set -/

theorem checkAbsent_eq_ok :
    checkAbsent inputs q = .ok () ↔ (q.mediaType ∉ inputs → q.count.min = 0) := by
  unfold checkAbsent
  split
  · rename_i h
    simp only [reduceCtorEq, false_iff]
    intro hzero
    have hmin : q.count.min = 0 := hzero h.1
    omega
  · rename_i h
    simp only [true_iff]
    intro hmem
    by_contra hne
    exact h ⟨hmem, by omega⟩

/-- **A whole set of inputs is taken** where each type that occurs is taken in
the number in which it occurs, and of the others none is needed. -/
theorem checkAll_eq_ok :
    i.checkAll inputs = .ok () ↔ (∀ t ∈ inputs, i.check t (inputs.count t) = .ok ()) ∧
      ∀ q ∈ i.requirements, q.mediaType ∉ inputs → q.count.min = 0 := by
  unfold checkAll
  rw [then_eq_ok, forM_eq_ok, forM_eq_ok]
  simp only [List.mem_filter, decide_eq_true_eq, MediaType.mem_all, true_and, checkAbsent_eq_ok]

/-- Besides inputs of one type, none are needed. -/
def NeedsOnly (i : Intake) (t : MediaType) : Prop :=
  ∀ q ∈ i.requirements, q.mediaType ≠ t → q.count.min = 0

/-- **A single input is taken** where one of its type is, and nothing else is
needed. -/
theorem checkAll_singleton :
    i.checkAll [t] = .ok () ↔ i.check t 1 = .ok () ∧ i.NeedsOnly t := by
  simp only [checkAll_eq_ok, NeedsOnly, List.mem_singleton, forall_eq, List.count_singleton_self]

/-! ## Counts -/

/-- A type that is listed is listed by one requirement, so a number of inputs
of it is taken where every requirement for the type holds the number. -/
theorem check_eq_ok_iff_forall (ht : t ∈ Requirement.types i.requirements) :
    i.check t n = .ok () ↔
      ∀ q ∈ i.requirements, q.mediaType = t → q.count.min ≤ n ∧ n ≤ q.count.max := by
  obtain ⟨p, hp, rfl⟩ := List.mem_map.mp ht
  have honly : ∀ q ∈ i.requirements, q.mediaType = p.mediaType → q = p := fun q hq hqt =>
    List.inj_on_of_nodup_map i.distinct hq hp hqt
  rw [check_eq_ok]
  constructor
  · rintro ⟨r, hr, hrt, hrange⟩ q hq hqt
    rwa [honly q hq hqt, ← honly r hr hrt]
  · intro h
    exact ⟨p, hp, rfl, h p hp rfl⟩

/-- A number of inputs of a type that is not listed is not taken, whatever it
is. -/
theorem check_ne_ok (ht : t ∉ Requirement.types i.requirements) : i.check t n ≠ .ok () := by
  intro h
  obtain ⟨q, hq, rfl, -⟩ := check_eq_ok.mp h
  exact ht (List.mem_map_of_mem hq)

/-- **A whole set is looked at through its counts alone.** -/
theorem checkAll_congr (h : ∀ t, inputs.count t = others.count t) :
    i.checkAll inputs = i.checkAll others := by
  have hmem : ∀ t, t ∈ inputs ↔ t ∈ others := fun t => by
    rw [← List.count_pos_iff, h, List.count_pos_iff]
  have habsent : checkAbsent inputs = checkAbsent others := by
    funext q
    simp only [checkAbsent, hmem]
  unfold checkAll
  simp only [hmem, h, habsent]

/-- **A whole set of inputs is taken by count:** where of each listed type as
many occur as its range holds, and of the other types none. What is said of
the inputs is the same in whatever order they are given. -/
theorem checkAll_by_count (i : Intake) (inputs : List MediaType) :
    (i.checkAll inputs = .ok () ↔ ∀ t,
      (∀ q ∈ i.requirements, q.mediaType = t →
        q.count.min ≤ inputs.count t ∧ inputs.count t ≤ q.count.max) ∧
      (t ∉ Requirement.types i.requirements → inputs.count t = 0)) ∧
    ∀ others, inputs.Perm others → i.checkAll inputs = i.checkAll others := by
  refine ⟨?_, fun others hperm => checkAll_congr fun t => hperm.count_eq t⟩
  rw [checkAll_eq_ok]
  constructor
  · rintro ⟨hpresent, habsent⟩ t
    refine ⟨fun q hq hqt => ?_, fun ht => ?_⟩
    · subst hqt
      by_cases hmem : q.mediaType ∈ inputs
      · have hlisted : q.mediaType ∈ Requirement.types i.requirements := List.mem_map_of_mem hq
        exact (check_eq_ok_iff_forall hlisted).mp (hpresent _ hmem) q hq rfl
      · -- a type that does not occur counts as none
        rw [List.count_eq_zero_of_not_mem hmem, habsent q hq hmem]
        exact ⟨Nat.le_refl 0, Nat.zero_le _⟩
    · exact List.count_eq_zero_of_not_mem fun hmem => check_ne_ok ht (hpresent t hmem)
  · intro h
    refine ⟨fun t hmem => ?_, fun q hq hmem => ?_⟩
    · have hlisted : t ∈ Requirement.types i.requirements := by
        by_contra ht
        exact List.count_eq_zero.mp ((h t).2 ht) hmem
      exact (check_eq_ok_iff_forall hlisted).mpr (h t).1
    · have hrange := ((h q.mediaType).1 q hq rfl).1
      rwa [List.count_eq_zero_of_not_mem hmem, Nat.le_zero] at hrange

end Intake

end MediaPipeline
