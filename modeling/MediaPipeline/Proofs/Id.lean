import Mathlib.Algebra.Order.Ring.Nat
import Mathlib.Algebra.BigOperators.Group.List.Basic
import MediaPipeline.Id
import MediaPipeline.Proofs.Text.Digits
import MediaPipeline.Proofs.Text.Pieces
/-!
# Id — an id is read back from its text

The digits of an id write its value in base sixteen (`ofDigits?_digits`), and
cutting them into groups loses none (`flatten_grouped`). No digit is a hyphen, so
the groups are told apart again between the hyphens, and the id is read back
(`parse?_hyphenated`). So two ids are never written alike, and neither are two
sessions (`SessionId.display_injective`).
-/


namespace MediaPipeline

namespace Id

variable {id : Id} {ns : List Nat} {cs : List Char} {c : Char}

/-! ## Digits -/

@[simp] theorem length_digits (id : Id) : id.digits.length = 32 := by simp [digits]

/-- The values of the digits, the highest first. -/
def digitValues (n count : Nat) : List Nat :=
  (List.range count).map fun i => n / 16 ^ (31 - i) % 16

theorem digits_eq_map (id : Id) :
    id.digits = (digitValues id.value.toNat 32).map Nat.digitChar := by
  unfold digits digitValues
  rw [List.map_map]
  rfl

theorem lt_of_mem_digitValues {n count d : Nat} (h : d ∈ digitValues n count) : d < 16 := by
  obtain ⟨i, -, rfl⟩ := List.mem_map.mp h
  exact Nat.mod_lt _ (by decide)

/-- The first digits write the number without its last ones. Each digit more
takes in one of these. -/
theorem foldl_digitValues {n count : Nat} (hn : n < 16 ^ 32) (hcount : count ≤ 32) :
    (digitValues n count).foldl (fun n d => 16 * n + d) 0 = n / 16 ^ (32 - count) := by
  induction count with
  | zero => exact (Nat.div_eq_of_lt hn).symm
  | succ count ih =>
    have hstep : digitValues n (count + 1) =
        digitValues n count ++ [n / 16 ^ (31 - count) % 16] := by
      unfold digitValues
      rw [List.range_succ, List.map_append, List.map_singleton]
    have hplaces : 32 - count = (31 - count) + 1 := by omega
    rw [hstep, List.foldl_concat, ih (by omega), hplaces, Nat.pow_succ, ← Nat.div_div_eq_div_mul,
      Nat.succ_sub_succ]
    exact Nat.div_add_mod _ 16

theorem mapM_hexValue? {ds : List Nat} (h : ∀ d ∈ ds, d < 16) :
    (ds.map Nat.digitChar).mapM Text.hexValue? = some ds := by
  induction ds with
  | nil => rfl
  | cons d ds ih =>
    obtain ⟨hd, hds⟩ := List.forall_mem_cons.mp h
    rw [List.map_cons, List.mapM_cons, Text.hexValue?_digitChar d hd, ih hds]
    rfl

/-- **The digits of an id write it.** -/
theorem ofDigits?_digits (id : Id) : ofDigits? id.digits = some id := by
  have hvalue : (digitValues id.value.toNat 32).foldl (fun n d => 16 * n + d) 0 =
      id.value.toNat := by
    have hlt : id.value.toNat < 16 ^ 32 := id.value.isLt
    rw [foldl_digitValues hlt le_rfl]
    exact Nat.div_one _
  unfold ofDigits?
  rw [length_digits, digits_eq_map, mapM_hexValue? fun _ => lt_of_mem_digitValues]
  show some (Id.mk (BitVec.ofNat 128 _)) = some id
  rw [hvalue, BitVec.ofNat_toNat, BitVec.setWidth_eq]

theorem ne_of_mem_digits {mark : Char} (hmark : ∀ d < 16, d.digitChar ≠ mark)
    (h : c ∈ id.digits) : c ≠ mark := by
  rw [digits_eq_map] at h
  obtain ⟨d, hd, rfl⟩ := List.mem_map.mp h
  exact hmark d (lt_of_mem_digitValues hd)

/-! ## Groups -/

theorem sum_eq_length_drop {n : Nat} (h : (n :: ns).sum = cs.length) :
    ns.sum = (cs.drop n).length := by
  rw [List.sum_cons] at h
  rw [List.length_drop]
  omega

/-- **Groups lose nothing,** where their lengths add up. -/
theorem flatten_grouped (h : ns.sum = cs.length) : (grouped ns cs).flatten = cs := by
  induction ns generalizing cs with
  | nil => exact (List.eq_nil_of_length_eq_zero h.symm).symm
  | cons n ns ih =>
    rw [grouped, List.flatten_cons, ih (sum_eq_length_drop h), List.take_append_drop]

theorem map_length_grouped (h : ns.sum = cs.length) : (grouped ns cs).map List.length = ns := by
  induction ns generalizing cs with
  | nil => rfl
  | cons n ns ih =>
    have hn : n ≤ cs.length := by
      rw [← h, List.sum_cons]
      exact Nat.le_add_right _ _
    rw [grouped, List.map_cons, ih (sum_eq_length_drop h), List.length_take, Nat.min_eq_left hn]

theorem sum_groups (id : Id) : groups.sum = id.digits.length := by
  rw [length_digits]
  rfl

theorem toList_hyphenated (id : Id) :
    id.hyphenated.toList = ['-'].intercalate (grouped groups id.digits) := by
  unfold hyphenated
  rw [String.toList_intercalate, List.map_map]
  congr 1
  exact (List.map_congr_left fun _ _ => String.toList_ofList).trans (List.map_id _)

/-- **Between the hyphens stand the groups.** -/
theorem runsBy_hyphenated (id : Id) :
    Text.runsBy (· == '-') id.hyphenated.toList = grouped groups id.digits := by
  have hdigits : ∀ run ∈ grouped groups id.digits, '-' ∉ run := by
    intro run hrun hhyphen
    have hmem : '-' ∈ (grouped groups id.digits).flatten :=
      List.mem_flatten.mpr ⟨run, hrun, hhyphen⟩
    rw [flatten_grouped id.sum_groups] at hmem
    exact ne_of_mem_digits (by decide) hmem rfl
  rw [Text.runsBy_eq_splitOnP, toList_hyphenated]
  exact List.splitOn_intercalate '-' hdigits (List.cons_ne_nil _ _)

/-- An id is written in digits and hyphens. -/
theorem mem_hyphenated (h : c ∈ id.hyphenated.toList) : c = '-' ∨ c ∈ id.digits := by
  rcases Text.sep_or_mem_runsBy (p := (· == '-')) h with hsep | ⟨run, hrun, hc⟩
  · exact .inl (beq_iff_eq.mp hsep)
  · rw [runsBy_hyphenated] at hrun
    rw [← flatten_grouped id.sum_groups]
    exact .inr (List.mem_flatten.mpr ⟨run, hrun, hc⟩)

/-- The text of an id has its digits and four hyphens. -/
theorem length_hyphenated (id : Id) : id.hyphenated.toList.length = 36 := by
  rw [toList_hyphenated]
  simp [groups, grouped, List.intercalate, List.intersperse]

/-- **An id is read back from its text.** -/
theorem parse?_hyphenated (id : Id) : parse? id.hyphenated = some id := by
  have hgroups : ofGroups? id.hyphenated.toList = some id := by
    unfold ofGroups?
    dsimp only
    rw [runsBy_hyphenated, map_length_grouped id.sum_groups, if_pos rfl,
      flatten_grouped id.sum_groups, ofDigits?_digits]
  unfold parse?
  dsimp only
  rw [length_hyphenated, if_neg (by decide), if_pos rfl, hgroups]

/-- **Two ids are never written alike.** -/
theorem hyphenated_injective : Function.Injective hyphenated := by
  intro a b h
  have hread := congrArg parse? h
  rw [parse?_hyphenated, parse?_hyphenated] at hread
  exact Option.some.inj hread

end Id

theorem SessionId.display_injective : Function.Injective SessionId.display := by
  rintro ⟨a⟩ ⟨b⟩ h
  have hid : a.hyphenated = b.hyphenated := (String.append_right_inj "session-").mp h
  rw [Id.hyphenated_injective hid]

end MediaPipeline
