import MediaPipeline.Proofs.Table
import MediaPipeline.StepConfigs
/-!
# StepConfigs — of configurations for one step, the last one counts

Configurations that were given one after the other hold, for each step, the
last one that was given for it (`StepConfigs.get?_insertAll`), and they are
determined by what is looked up in them (`StepConfigs.eq_of_get?`). So it does
not matter how the calls for different steps are mixed
(`StepConfigs.insertAll_congr`).
-/


namespace MediaPipeline

/-! ## Configurations given one after the other -/

/-- The last configuration that calls gave for the step at a place. -/
def lastGiven (calls : List (Nat × Configuration)) (index : Nat) : Option Configuration :=
  (calls.filter fun call => call.1 = index).getLast?.map (·.2)

theorem lastGiven_cons (call : Nat × Configuration) (index : Nat) :
    lastGiven (call :: calls) index =
      (lastGiven calls index).or (if call.1 = index then some call.2 else none) := by
  unfold lastGiven
  by_cases hindex : call.1 = index
  · rw [List.filter_cons_of_pos (by simpa using hindex), List.getLast?_cons, if_pos hindex]
    cases (calls.filter fun call => call.1 = index).getLast? <;> rfl
  · rw [List.filter_cons_of_neg (by simpa using hindex), if_neg hindex, Option.or_none]

namespace StepConfigs

variable {configs others : StepConfigs} {calls calls' : List (Nat × Configuration)}

/-- Configurations are determined by what is looked up in them. -/
theorem eq_of_get? (h : ∀ index, configs.get? index = others.get? index) : configs = others := by
  obtain ⟨entries, ascending⟩ := configs
  obtain ⟨entries', ascending'⟩ := others
  obtain rfl : entries = entries' := ascending.eq_of_get? ascending' h
  rfl

/-- The configurations with those that calls gave, one after the other. -/
def insertAll (configs : StepConfigs) (calls : List (Nat × Configuration)) : StepConfigs :=
  calls.foldl (fun configs call => configs.insert call.1 call.2) configs

/-- **The last configuration for a step counts.** -/
theorem get?_insertAll (configs : StepConfigs) (calls : List (Nat × Configuration))
    (index : Nat) :
    (configs.insertAll calls).get? index = (lastGiven calls index).or (configs.get? index) := by
  induction calls generalizing configs with
  | nil => rfl
  | cons call calls ih =>
    have hinsert : (configs.insert call.1 call.2).get? index =
        if call.1 = index then some call.2 else configs.get? index :=
      configs.ascending.get?_insert call.1 call.2 index
    show ((configs.insert call.1 call.2).insertAll calls).get? index = _
    rw [ih, hinsert, lastGiven_cons, Option.or_assoc]
    by_cases hindex : call.1 = index
    · rw [if_pos hindex, if_pos hindex]
      rfl
    · rw [if_neg hindex, if_neg hindex]
      rfl

/-- **The order of calls for different steps does not matter.** -/
theorem insertAll_congr (h : ∀ index, lastGiven calls index = lastGiven calls' index) :
    configs.insertAll calls = configs.insertAll calls' :=
  eq_of_get? fun index => by rw [get?_insertAll, get?_insertAll, h]

end StepConfigs

end MediaPipeline
