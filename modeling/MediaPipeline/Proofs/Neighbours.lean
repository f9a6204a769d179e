import MediaPipeline.Pipeline
import Mathlib.Data.List.Chain
/-!
# Neighbours — what feeds what

In a sequence of features each has to take, as a single input, what the one
before it produces. The same is asked of entries of the catalog, of planned
features and of compiled steps, and it is a matter of their intakes alone.
A sequence is put together from parts where they join: where the last of the
one feeds the first of the other.
-/


namespace MediaPipeline

/-- The consumer takes, as a single input, what the producer produces. -/
def Intake.Feeds (producer consumer : Intake) : Prop :=
  consumer.check producer.primary 1 = .ok ()

/-- A feature takes, as a single input, what the one before it produces. -/
def Entry.Feeds (before after : Entry) : Prop := before.intake.Feeds after.intake

/-- So does a planned feature. -/
def Planned.Feeds (before after : Planned) : Prop := before.entry.Feeds after.entry

/-- And a compiled step. -/
def CompiledStep.Feeds (before after : CompiledStep) : Prop := before.intake.Feeds after.intake

/-- Where two sequences meet, the last of the one and the first of the other
are related. -/
def Joins {α : Type} (R : α → α → Prop) (before after : List α) : Prop :=
  ∀ a ∈ before.getLast?, ∀ b ∈ after.head?, R a b

namespace Joins

variable {α : Type} {R : α → α → Prop} {before after here later : List α}

theorem nil : Joins R [] after := by
  simp [Joins]

theorem nil_right : Joins R before [] := by
  simp [Joins]

/-- What joins a sequence joins whatever goes on behind it. -/
theorem append_iff (hne : here ≠ []) : Joins R before (here ++ later) ↔ Joins R before here := by
  unfold Joins
  rw [List.head?_append_of_ne_nil here hne]

/-- What joins behind a sequence joins behind the end of it. -/
theorem append_left_iff (hne : later ≠ []) : Joins R (here ++ later) after ↔ Joins R later after := by
  unfold Joins
  rw [List.getLast?_append_of_ne_nil here hne]

end Joins

/-- **A sequence that is not related throughout breaks off somewhere first.** -/
theorem exists_break {α : Type} {R : α → α → Prop} {l : List α} (h : ¬ l.IsChain R) :
    ∃ front a b rest, l = front ++ a :: b :: rest ∧ (front ++ [a]).IsChain R ∧ ¬ R a b := by
  induction l with
  | nil => exact absurd List.isChain_nil h
  | cons x l ih =>
    cases l with
    | nil => exact absurd (List.isChain_singleton x) h
    | cons y l =>
      by_cases hxy : R x y
      · have hrest : ¬ (y :: l).IsChain R := fun hchain => h (List.isChain_cons_cons.mpr ⟨hxy, hchain⟩)
        obtain ⟨front, a, b, rest, hl, hchain, hbreak⟩ := ih hrest
        refine ⟨x :: front, a, b, rest, by rw [hl, List.cons_append], ?_, hbreak⟩
        rw [List.cons_append, List.isChain_cons]
        refine ⟨fun z hz => ?_, hchain⟩
        -- the sequence in front of the break begins as the whole one does
        have hhead : (front ++ [a]).head? = (y :: l).head? := by
          rw [hl]
          cases front <;> rfl
        rw [hhead] at hz
        exact Option.some.inj hz ▸ hxy
      · exact ⟨[], x, y, l, rfl, List.isChain_singleton x, hxy⟩

end MediaPipeline
