import MediaPipeline.Plan
import MediaPipeline.Proofs.Traversal
import Mathlib.Data.List.FinRange
/-!
# Plan/Continuations — which ways to go on are checked

A check plans along every path into the children of a workflow. The paths are
those that lead somewhere (`mem_childPaths`), and they are listed in the order
of a depth-first walk: a path before the paths that go on from it, and those
before the ones through a later child. That is the lexicographic order of the
child indices (`pairwise_childPaths`), so the first failure of the check is
that of the first path in this order (`check_covers`).

`checkFrom` is the check as a walk with one path, which grows by an index on
the way into a child and is looked up from the root again at every stop.
-/


namespace MediaPipeline

open Traversal

namespace Workflow

variable {w v : Workflow} {path more : List Nat}

/-! ## The listing of the paths -/

/-- The paths into children go through each child in turn. -/
theorem pathsFrom_eq (k : Nat) (ws : List Workflow) :
    pathsFrom k ws =
      (List.finRange ws.length).flatMap fun i => ws[i].childPaths.map ((k + i) :: ·) := by
  induction ws generalizing k with
  | nil => rw [pathsFrom]; rfl
  | cons w ws ih =>
    have hrow : List.finRange (w :: ws).length =
        0 :: (List.finRange ws.length).map Fin.succ := List.finRange_succ
    have hplace : ∀ i : Fin ws.length, k + 1 + i.val = k + i.succ.val := by
      intro i
      rw [Fin.val_succ]
      omega
    rw [pathsFrom, ih, hrow, List.flatMap_cons, List.flatMap_map]
    simp only [hplace]
    rfl

theorem childPaths_eq (w : Workflow) :
    w.childPaths =
      [] :: (List.finRange w.child.length).flatMap fun i =>
        w.child[i].childPaths.map (i.val :: ·) := by
  cases w with
  | mk name description steps child =>
    rw [childPaths, pathsFrom_eq]
    simp only [Nat.zero_add]

theorem descendant?_cons (i : Fin w.child.length) :
    w.descendant? (i.val :: path) = w.child[i].descendant? path := by
  simp [descendant?]

/-- **The paths that are listed are those that lead somewhere.** -/
theorem mem_childPaths : path ∈ w.childPaths ↔ (w.descendant? path).isSome := by
  induction w using below_induction generalizing path with
  | h w ih =>
    rw [childPaths_eq]
    cases path with
    | nil => exact ⟨fun _ => rfl, fun _ => List.mem_cons_self⟩
    | cons n path =>
      simp only [List.mem_cons, List.cons_ne_nil, false_or, List.mem_flatMap, List.mem_map,
        List.cons.injEq]
      constructor
      · rintro ⟨i, -, rest, hrest, rfl, rfl⟩
        rw [descendant?_cons]
        exact (ih _ (List.getElem_mem i.isLt)).mp hrest
      · intro h
        -- the first index is one of a child, for nothing is found behind any other
        have hn : n < w.child.length := by
          by_contra hout
          rw [descendant?, List.getElem?_eq_none (Nat.le_of_not_lt hout)] at h
          cases h
        rw [descendant?_cons ⟨n, hn⟩] at h
        exact ⟨⟨n, hn⟩, List.mem_finRange _, path, (ih _ (List.getElem_mem hn)).mpr h, rfl, rfl⟩

/-- **They are listed in lexicographic order.** -/
theorem pairwise_childPaths (w : Workflow) : w.childPaths.Pairwise (· < ·) := by
  induction w using below_induction with
  | h w ih =>
    rw [childPaths_eq, List.pairwise_cons]
    constructor
    · intro path hpath
      obtain ⟨i, -, hpath⟩ := List.mem_flatMap.mp hpath
      obtain ⟨rest, -, rfl⟩ := List.mem_map.mp hpath
      exact List.nil_lt_cons _ _
    · rw [List.pairwise_flatMap]
      constructor
      · intro i _
        rw [List.pairwise_map]
        refine (ih _ (List.getElem_mem i.isLt)).imp fun hlt => ?_
        exact List.cons_lt_cons_iff.mpr (.inr ⟨rfl, hlt⟩)
      · refine (List.pairwise_lt_finRange _).imp fun hij x hx y hy => ?_
        obtain ⟨rest, -, rfl⟩ := List.mem_map.mp hx
        obtain ⟨rest', -, rfl⟩ := List.mem_map.mp hy
        exact List.cons_lt_cons_iff.mpr (.inl hij)

/-! ## One path that grows -/

/-- A path that grows by an index leads into a child of what it led to. -/
theorem descendant?_append (h : w.descendant? path = some v) :
    w.descendant? (path ++ more) = v.descendant? more := by
  induction path generalizing w with
  | nil =>
    cases h
    rfl
  | cons n path ih =>
    obtain ⟨u, hu, h⟩ := Option.bind_eq_some_iff.mp h
    rw [List.cons_append, descendant?, hu]
    exact ih h

theorem sizeOf_child_lt (i : Fin w.child.length) : sizeOf w.child[i] < sizeOf w := by
  have hlt := List.sizeOf_lt_of_mem (List.getElem_mem i.isLt)
  cases w
  simp only [Workflow.mk.sizeOf_spec]
  simp only [Fin.getElem_fin] at hlt ⊢
  omega

end Workflow

namespace Catalogs

variable {c : Catalogs} {root w v : Workflow} {path : List Nat} {e : Error}

/-- The check as a walk: it plans along the path that it has come by and looks
up where the path leads; then it goes into each child in turn, with the index
of the child behind the path. -/
def checkFrom (c : Catalogs) (root : Workflow) (path : List Nat) : Except Error Unit := do
  let _ ← c.plan root path 0
  match _hdescendant : root.descendant? path with
  | none => .ok ()
  | some w => (List.finRange w.child.length).forM fun i => c.checkFrom root (path ++ [i.val])
termination_by (root.descendant? path).elim 0 sizeOf
decreasing_by
  have hchild : root.descendant? (path ++ [i.val]) = some w.child[i] := by
    rw [Workflow.descendant?_append _hdescendant, Workflow.descendant?_cons]
    rfl
  rw [hchild, _hdescendant]
  exact Workflow.sizeOf_child_lt i

/-- What a check asks of one path. -/
theorem plan_map_eq_ok :
    ((c.plan root path 0).map fun _ => ()) = .ok () ↔
      ∃ planned, c.plan root path 0 = .ok planned := by
  rw [map_eq_ok]
  simp

/-- **The walk plans along the paths that are listed** below where it stands,
each behind the path that it has come by. The induction is on what the path
leads to. -/
theorem checkFrom_eq (h : root.descendant? path = some w) :
    c.checkFrom root path =
      w.childPaths.forM fun more => (c.plan root (path ++ more) 0).map fun _ => () := by
  induction w using Workflow.below_induction generalizing path with
  | h w ih =>
    -- in a child the walk plans along the paths of the child, behind the index of it
    have hbelow : ∀ i : Fin w.child.length, c.checkFrom root (path ++ [i.val]) =
        (w.child[i].childPaths.map (i.val :: ·)).forM
          fun more => (c.plan root (path ++ more) 0).map fun _ => () := by
      intro i
      have hchild : root.descendant? (path ++ [i.val]) = some w.child[i] := by
        rw [Workflow.descendant?_append h, Workflow.descendant?_cons]
        rfl
      rw [ih _ (List.getElem_mem i.isLt) hchild, List.forM_eq_forM, List.forM_map]
      simp only [List.append_assoc, List.singleton_append]
      rfl
    rw [checkFrom, Workflow.childPaths_eq]
    change _ = ((c.plan root (path ++ []) 0).map fun _ => ()) >>= fun _ =>
      List.forM _ fun more => (c.plan root (path ++ more) 0).map fun _ => ()
    rw [forM_flatMap, List.append_nil]
    simp only [← hbelow]
    cases c.plan root path 0 with
    | error e => rfl
    | ok planned =>
      change (match _h : root.descendant? path with
        | none => (.ok () : Except Error Unit)
        | some w => (List.finRange w.child.length).forM fun i =>
            c.checkFrom root (path ++ [i.val])) = _
      split
      · rename_i hnone
        rw [h] at hnone
        cases hnone
      · rename_i v hv
        rw [h] at hv
        obtain rfl := Option.some.inj hv
        rfl

/-- **A check covers every way to go on.** It walks with one path from the
workflow into its children. It succeeds exactly where there is a plan along
every path that leads to a descendant, and it fails exactly as the plan along
the first path that has none, in the depth-first order of the children: there
is a plan along every path before it. -/
theorem check_covers (c : Catalogs) (w : Workflow) :
    c.check w = c.checkFrom w [] ∧
    (c.check w = .ok () ↔
      ∀ path, (w.descendant? path).isSome → ∃ planned, c.plan w path 0 = .ok planned) ∧
    ∀ e, c.check w = .error e ↔
      ∃ path, (w.descendant? path).isSome ∧ c.plan w path 0 = .error e ∧
        ∀ earlier < path, (w.descendant? earlier).isSome →
          ∃ planned, c.plan w earlier 0 = .ok planned := by
  have hroot : w.descendant? [] = some w := rfl
  refine ⟨(checkFrom_eq hroot).symm, ?_, fun e => ?_⟩
  · unfold check
    rw [forM_eq_ok]
    simp only [Workflow.mem_childPaths, plan_map_eq_ok]
  · unfold check
    rw [forM_eq_error_of_pairwise List.lt_irrefl (fun _ _ => List.lt_asymm)
      w.pairwise_childPaths]
    simp only [Workflow.mem_childPaths, plan_map_eq_ok, map_eq_error]
    constructor
    · rintro ⟨path, hpath, hfail, hbefore⟩
      exact ⟨path, hpath, hfail, fun earlier hlt hearlier => hbefore earlier hearlier hlt⟩
    · rintro ⟨path, hpath, hfail, hbefore⟩
      exact ⟨path, hpath, hfail, fun earlier hearlier hlt => hbefore earlier hlt hearlier⟩

end Catalogs

end MediaPipeline
