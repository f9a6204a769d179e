import MediaPipeline.Configuration.Basic
import MediaPipeline.Proofs.Table
/-!
# Configuration/Scopes — scopes in scopes

What is shown of scopes is shown by induction over a scope and those in it
(`Scope.below_induction`); a property holds throughout a scope where it holds of
the scope and throughout each of those in it (`Scope.throughout_iff`). The order
of names is such a property: it is a matter of one level and of the scopes below
it.
-/


namespace MediaPipeline

namespace Scope

variable {P Q : Scope → Prop} {n m : Scope} {v : Option Leaf} {cs : List (String × Scope)}
variable {name : String}

/-- **Induction over a scope and those in it.** -/
@[elab_as_elim]
theorem below_induction (h : ∀ n : Scope, (∀ e ∈ n.inner, P e.2) → P n) (n : Scope) : P n :=
  h n fun e _ => below_induction h e.2
termination_by sizeOf n
decreasing_by
  rename_i he
  have hlt := List.sizeOf_lt_of_mem he
  obtain ⟨v, cs⟩ := n
  obtain ⟨name, below⟩ := e
  simp only [inner, Prod.mk.sizeOf_spec, Scope.mk.sizeOf_spec] at hlt ⊢
  omega

/-- A property of a scope and of every scope in it, however deep. -/
inductive Throughout (P : Scope → Prop) : Scope → Prop
  | intro {n : Scope} (here : P n) (below : ∀ e ∈ n.inner, Throughout P e.2) : Throughout P n

theorem throughout_iff : n.Throughout P ↔ P n ∧ ∀ e ∈ n.inner, e.2.Throughout P :=
  ⟨fun ⟨here, below⟩ => ⟨here, below⟩, fun ⟨here, below⟩ => .intro here below⟩

theorem throughout_mk :
    (Scope.mk v cs).Throughout P ↔ P (.mk v cs) ∧ ∀ e ∈ cs, e.2.Throughout P :=
  throughout_iff

theorem throughout_and :
    (n.Throughout fun n => P n ∧ Q n) ↔ n.Throughout P ∧ n.Throughout Q := by
  induction n using below_induction with
  | h n ih =>
    rw [throughout_iff, throughout_iff (P := P), throughout_iff (P := Q), and_and_and_comm]
    refine and_congr_right fun _ => ⟨fun h => ?_, fun h e he => ?_⟩
    · exact ⟨fun e he => ((ih e he).mp (h e he)).1, fun e he => ((ih e he).mp (h e he)).2⟩
    · exact (ih e he).mpr ⟨h.1 e he, h.2 e he⟩

theorem allOrdered_iff : AllOrdered cs ↔ ∀ e ∈ cs, e.2.Ordered := by
  induction cs with
  | nil => simp [AllOrdered]
  | cons e rest ih => rw [AllOrdered, ih, List.forall_mem_cons]

/-! ## Order -/

theorem Ordered.ascending (h : n.Ordered) : Table.Ascending n.inner := by
  cases n
  exact h.1

/-- A scope that is found in one with names in order has its names in order. -/
theorem Ordered.of_get? (h : n.Ordered) (hget : Table.get? n.inner name = some m) :
    m.Ordered := by
  cases n
  exact allOrdered_iff.mp h.2 _ (Table.mem_of_get? hget)

end Scope

/-! ## Configurations -/

namespace Configuration

variable {c d : Configuration}

/-- A property of every scope of a configuration, however deep. -/
def Throughout (P : Scope → Prop) (c : Configuration) : Prop := ∀ e ∈ c.fields, e.2.Throughout P

theorem throughout_and {P Q : Scope → Prop} :
    (c.Throughout fun n => P n ∧ Q n) ↔ c.Throughout P ∧ c.Throughout Q := by
  unfold Throughout
  simp only [Scope.throughout_and, imp_and, forall_and]

theorem eq_of_fields (h : c.fields = d.fields) : c = d := by
  cases c
  cases d
  congr

end Configuration

end MediaPipeline
