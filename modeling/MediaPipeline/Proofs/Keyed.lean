import Mathlib.Data.List.Nodup
/-!
# Keyed — rows in which no two have one key

Nodes of a row have names, entries of a catalog have keys, requirements have
media types. Where no two of a row have the same key, searching the row for a
key finds the one that has it, wherever it stands (`find?_key`).
-/


namespace MediaPipeline

namespace Keyed

variable {α κ : Type} [DecidableEq κ] {key : α → κ} {l : List α} {a : α} {k : κ}

/-- **The search for a key finds the one that has it.** -/
theorem find?_key (hdistinct : (l.map key).Nodup) :
    l.find? (fun b => decide (key b = k)) = some a ↔ a ∈ l ∧ key a = k := by
  constructor
  · intro h
    exact ⟨List.mem_of_find?_eq_some h, by simpa using List.find?_some h⟩
  · rintro ⟨ha, rfl⟩
    have hfound : (l.find? fun b => decide (key b = key a)).isSome :=
      List.find?_isSome.mpr ⟨a, ha, decide_eq_true rfl⟩
    obtain ⟨b, hb⟩ := Option.isSome_iff_exists.mp hfound
    have hsame : key b = key a := by simpa using List.find?_some hb
    rw [hb, List.inj_on_of_nodup_map hdistinct (List.mem_of_find?_eq_some hb) ha hsame]

end Keyed

end MediaPipeline
