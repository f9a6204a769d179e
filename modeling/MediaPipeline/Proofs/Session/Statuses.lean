import MediaPipeline.Pipeline
import MediaPipeline.Proofs.Table
import MediaPipeline.Session.State
/-!
# Session/Statuses — the status of every step of a pipeline

A session keeps the status of each step of its pipeline, in the order of the
steps. `marked` writes such a table down: one status for all of the given
steps. What a session does to it is one of two things. It sets every step to
pending, whatever was there (`entries_pending`), or it puts another status in
place of the one that a step has, and leaves the steps before and behind it
as they were (`entries_set`).
-/


namespace MediaPipeline

namespace Session

/-- Steps at their places, all with one status. -/
def marked (status : Status) (steps : List CompiledStep) : List (Nat × Status) :=
  steps.map fun step => (step.index, status)

theorem marked_append {status : Status} {steps more : List CompiledStep} :
    marked status (steps ++ more) = marked status steps ++ marked status more :=
  List.map_append

namespace ProgressTable

variable {t : ProgressTable} {index : Nat} {status old : Status}
  {before after : List (Nat × Status)}

/-- **A status in place of the one that a step has.** -/
theorem entries_set (h : t.entries = before ++ (index, old) :: after) :
    (t.set index status).entries = before ++ (index, status) :: after := by
  have hascending : Table.Ascending (before ++ (index, old) :: after) := h ▸ t.ascending
  show Table.insert index status t.entries = _
  rw [h, Table.insert_append_cons hascending]

/-- A status for a step behind all that have one. -/
theorem entries_set_of_lt (h : ∀ e ∈ t.entries, e.1 < index) :
    (t.set index status).entries = t.entries ++ [(index, status)] := by
  show Table.insert index status t.entries = t.entries ++ Table.insert index status []
  rw [← Table.insert_append h, List.append_nil]

/-- Setting to pending, place by place, all behind those that have a status. -/
theorem entries_foldl_set {places : List Nat} (hplaces : places.Pairwise (· < ·))
    (hbehind : ∀ e ∈ t.entries, ∀ i ∈ places, e.1 < i) :
    (places.foldl (fun t i => t.set i .pending) t).entries =
      t.entries ++ places.map fun i => (i, .pending) := by
  induction places generalizing t with
  | nil => exact (List.append_nil _).symm
  | cons i rest ih =>
    obtain ⟨hfirst, hrest⟩ := List.pairwise_cons.mp hplaces
    have hset : (t.set i .pending).entries = t.entries ++ [(i, .pending)] :=
      entries_set_of_lt fun e he => hbehind e he i List.mem_cons_self
    rw [List.foldl_cons, ih hrest, hset, List.append_assoc]
    · rfl
    · intro e he j hj
      rw [hset] at he
      rcases List.mem_append.mp he with he | he
      · exact hbehind e he j (List.mem_cons_of_mem _ hj)
      · rw [List.mem_singleton.mp he]
        exact hfirst j hj

/-- **Every step of a pipeline pending.** -/
theorem entries_pending {steps : List CompiledStep} {n : Nat}
    (h : steps.map CompiledStep.index = List.range n) :
    (pending (steps.map CompiledStep.index)).entries = marked .pending steps := by
  have hplaces : (steps.map CompiledStep.index).Pairwise (· < ·) := h ▸ List.pairwise_lt_range
  unfold pending
  rw [entries_foldl_set hplaces fun e he => absurd he List.not_mem_nil]
  show [] ++ _ = _
  rw [List.nil_append, List.map_map]
  rfl

end ProgressTable

end Session

end MediaPipeline
