import Mathlib.Data.String.Basic
import MediaPipeline.Proofs.Configuration.Scopes
import MediaPipeline.Proofs.Text.Pieces
/-!
# Configuration/Places — what a value at a path changes

A value is put at a path by changing, at each name on the way, the scope below
it. So putting a value changes what is read at that path and nowhere else
(`Scope.valueAt?_setAt`), a second value at a path takes the place of the first
(`Scope.setAt_setAt`), and values at two paths do not meet (`Scope.setAt_comm`),
also where one path goes on from the other: the scope in the middle holds a value
and further scopes side by side. The inductions are over the first path, with the
second path and the scope general: a name that both share leads into the scope
below it, and at two names nothing meets. Since a path is known by the names it joins
(`Text.pieces_injective`), the same laws hold of dotted paths (`set_laws`).
-/


namespace MediaPipeline

namespace Scope

variable {n : Scope} {name other : String} {p q rest : List String} {v w : Leaf}

/-! ## The scope below a name -/

/-- The scope under a name, an empty one where there is none. -/
def under (n : Scope) (name : String) : Scope := (Table.get? n.inner name).getD empty

theorem Ordered.under (h : n.Ordered) (name : String) : (n.under name).Ordered := by
  unfold Scope.under
  cases hget : Table.get? n.inner name with
  | none => exact ordered_empty
  | some m => exact h.of_get? hget

/-- The value where the names lead to. -/
def valueAt? (path : List String) (n : Scope) : Option Leaf := (n.at? path).bind value

theorem valueAt?_empty (path : List String) : empty.valueAt? path = none := by
  cases path <;> rfl

/-- A value below a name is one of the scope there. -/
theorem valueAt?_cons (name : String) (rest : List String) (n : Scope) :
    n.valueAt? (name :: rest) = (n.under name).valueAt? rest := by
  unfold under
  show ((Table.get? n.inner name).bind (at? rest)).bind value = _
  cases Table.get? n.inner name with
  | none => exact (valueAt?_empty rest).symm
  | some m => rfl

/-- A change below a name changes the scope there. -/
theorem under_setAt (hn : n.Ordered) :
    (setAt (name :: rest) v n).under other =
      if name = other then setAt rest v (n.under name) else n.under other := by
  show (Table.get? (Table.alter name _ n.inner) other).getD empty = _
  rw [hn.ascending.get?_alter]
  split <;> rfl

/-! ## Values at two paths -/

/-- **What is read after a value was put at a path** is that value at the path,
and what was read before everywhere else. -/
theorem valueAt?_setAt (hn : n.Ordered) (p q : List String) (v : Leaf) :
    (setAt p v n).valueAt? q = if p = q then some v else n.valueAt? q := by
  induction p generalizing n q with
  | nil =>
    cases q with
    | nil => rfl
    | cons name rest =>
      rw [valueAt?_cons, valueAt?_cons, if_neg (List.cons_ne_nil _ _).symm]
      rfl
  | cons name rest ih =>
    cases q with
    | nil => exact (if_neg (List.cons_ne_nil _ _)).symm
    | cons other rest' =>
      rw [valueAt?_cons, valueAt?_cons, under_setAt hn]
      by_cases hname : name = other
      · subst hname
        rw [if_pos rfl, ih (hn.under name)]
        simp only [List.cons.injEq, true_and]
      · have hne : name :: rest ≠ other :: rest' := fun h => hname (List.cons.inj h).1
        rw [if_neg hname, if_neg hne]

/-- **A second value at a path takes the place of the first.** -/
theorem setAt_setAt (hn : n.Ordered) (p : List String) (v w : Leaf) :
    setAt p w (setAt p v n) = setAt p w n := by
  induction p generalizing n with
  | nil => rfl
  | cons name rest ih =>
    have hinner : (setAt (name :: rest) w (setAt (name :: rest) v n)).inner =
        (setAt (name :: rest) w n).inner := by
      refine hn.ascending.alter_alter.trans (hn.ascending.alter_congr ?_)
      exact ih (hn.under name)
    exact congrArg (Scope.mk n.value) hinner

/-- **Values at two paths do not meet.** -/
theorem setAt_comm (hn : n.Ordered) (hne : p ≠ q) :
    setAt q w (setAt p v n) = setAt p v (setAt q w n) := by
  induction p generalizing n q with
  | nil =>
    cases q with
    | nil => exact absurd rfl hne
    | cons name rest => rfl
  | cons name rest ih =>
    cases q with
    | nil => rfl
    | cons other rest' =>
      have hinner : (setAt (other :: rest') w (setAt (name :: rest) v n)).inner =
          (setAt (name :: rest) v (setAt (other :: rest') w n)).inner := by
        by_cases hname : name = other
        · subst hname
          have hrest : rest ≠ rest' := fun h => hne (congrArg (name :: ·) h)
          refine hn.ascending.alter_alter.trans (Eq.trans ?_ hn.ascending.alter_alter.symm)
          exact hn.ascending.alter_congr (ih (hn.under name) hrest)
        · exact hn.ascending.alter_comm (Ne.symm hname)
      exact congrArg (Scope.mk n.value) hinner

end Scope

/-! ## Dotted paths -/

namespace Configuration

theorem segments_injective : Function.Injective segments := Text.pieces_injective '.'

theorem get?_eq_valueAt? (c : Configuration) (p : String) :
    c.get? p = c.root.valueAt? (segments p) := rfl

/-- A path joins one name at least, so no value is put at the root itself. -/
theorem root_set (c : Configuration) (p : String) (v : Leaf) :
    (c.set p v).root = c.root.setAt (segments p) v := by
  obtain ⟨name, rest, hp⟩ := List.exists_cons_of_ne_nil (Text.pieces_ne_nil '.' p)
  show Scope.mk none (c.root.setAt (Text.pieces '.' p) v).inner = _
  unfold segments
  rw [hp]
  rfl

theorem eq_of_root {c d : Configuration} (h : c.root = d.root) : c = d :=
  eq_of_fields (Scope.mk.inj h).2

/-- **The laws of putting values at paths,** whatever the paths are: what is read
afterwards at the path is the value, and nothing else has changed; a second value
at the path takes the place of the first; and at two paths it does not matter
which value is put first. -/
theorem set_laws (c : Configuration) (p q : String) (v w : Leaf) :
    (c.set p v).get? p = some v ∧
    (p ≠ q → (c.set p v).get? q = c.get? q) ∧
    (c.set p v).set p w = c.set p w ∧
    (p ≠ q → (c.set p v).set q w = (c.set q w).set p v) := by
  have hroot : c.root.Ordered := c.ordered
  have hsegments : p ≠ q → segments p ≠ segments q := fun h => segments_injective.ne h
  refine ⟨?_, fun hne => ?_, ?_, fun hne => ?_⟩
  · rw [get?_eq_valueAt?, root_set, Scope.valueAt?_setAt hroot, if_pos rfl]
  · rw [get?_eq_valueAt?, root_set, Scope.valueAt?_setAt hroot, if_neg (hsegments hne)]
    rfl
  · apply eq_of_root
    rw [root_set, root_set, root_set, Scope.setAt_setAt hroot]
  · apply eq_of_root
    rw [root_set, root_set, root_set, root_set, Scope.setAt_comm hroot (hsegments hne)]

/-- One path goes on from the other, by an empty name. -/
theorem set_laws_trailing :
    "CROP" ≠ "CROP." ∧
      ((empty.set "CROP" (.bool true)).set "CROP." (.number 2)).get? "CROP" = some (.bool true) ∧
      (empty.set "CROP" (.bool true)).set "CROP." (.number 2) =
        (empty.set "CROP." (.number 2)).set "CROP" (.bool true) := by
  have hne : "CROP" ≠ "CROP." := by decide
  obtain ⟨hget, -, -, hcomm⟩ := set_laws empty "CROP" "CROP." (.bool true) (.number 2)
  obtain ⟨-, hother, -, -⟩ :=
    set_laws (empty.set "CROP" (.bool true)) "CROP." "CROP" (.number 2) (.bool true)
  exact ⟨hne, (hother hne.symm).trans hget, hcomm hne⟩

end Configuration

end MediaPipeline
