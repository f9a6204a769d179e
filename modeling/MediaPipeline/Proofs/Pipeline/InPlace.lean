import MediaPipeline.Proofs.Pipeline
/-!
# Pipeline/InPlace — one pipeline put behind another

Appending in place first asks whether the two pipelines join, and changes the
name and the steps only where they do: so what is left is both of them, or the
pipeline as it was (`perform_appendInPlace`). Which two of three pipelines are
put together first is no matter, as long as there are steps in the first two:
what joins behind the second joins behind the first two, and what the second
joins is joined by the last two (`Joins.append_left_iff`, `Joins.append_iff`);
and the name is that of all three either way (`joined_joined`).
-/


namespace MediaPipeline

namespace Pipeline

variable {a b c p q left : Pipeline} {e : Error}

/-! ## Edits -/

theorem perform_get (p : Pipeline) : Edit.perform get p = (.ok p, p) := rfl

/-- A check changes nothing. -/
theorem perform_ofExcept {α : Type} (check : Except Error α) (p : Pipeline) :
    Edit.perform (MonadExcept.ofExcept check) p = (check, p) := by
  cases check <;> rfl

/-- An edit behind another one is made where that one did not fail. -/
theorem perform_bind {α β : Type} (edit : Edit α) (next : α → Edit β) (p : Pipeline) :
    Edit.perform (edit >>= next) p =
      match edit.perform p with
      | (.ok x, after) => (next x).perform after
      | (.error e, after) => (.error e, after) := by
  unfold Edit.perform
  rw [ExceptT.run_bind, StateT.run_bind]
  rcases edit.run.run p with ⟨_ | _, after⟩ <;> rfl

/-- Two edits succeed where each does, the second on what the first left. -/
theorem perform_then_eq_ok {edit next : Edit Unit} :
    Edit.perform (do edit; next) p = (.ok (), left) ↔
      ∃ between, edit.perform p = (.ok (), between) ∧ next.perform between = (.ok (), left) := by
  rw [perform_bind]
  rcases edit.perform p with ⟨_ | _, after⟩ <;> simp

/-! ## All or nothing -/

/-- Two pipelines as one. -/
def joined (p q : Pipeline) : Pipeline :=
  ⟨if p.steps.isEmpty then q.name else p.joinedName q, p.steps ++ q.steps⟩

/-- **Both, or the pipeline as it was.** -/
theorem perform_appendInPlace (p q : Pipeline) :
    q.appendInPlace.perform p =
      match p.checkJoin q with
      | .ok _ => (.ok (), p.joined q)
      | .error e => (.error e, p) := by
  unfold appendInPlace
  rw [perform_bind, perform_get]
  dsimp only
  rw [perform_bind, perform_ofExcept]
  cases p.checkJoin q with
  | ok _ => rfl
  | error e => rfl

theorem appendInPlace_eq_ok :
    q.appendInPlace.perform p = (.ok (), left) ↔
      Joins CompiledStep.Feeds p.steps q.steps ∧ left = p.joined q := by
  rw [← checkJoin_eq_ok, perform_appendInPlace]
  cases p.checkJoin q with
  | ok _ => simp [eq_comm]
  | error e => simp

theorem eq_of_appendInPlace_eq_error (h : q.appendInPlace.perform p = (.error e, left)) :
    left = p := by
  rw [perform_appendInPlace] at h
  cases hcheck : p.checkJoin q with
  | ok _ => simp [hcheck] at h
  | error e' =>
    rw [hcheck] at h
    exact (congrArg Prod.snd h).symm

/-- **What appending does to a pipeline.** It succeeds where the two join, and
leaves both, as `append` has it; where it fails, it leaves the pipeline as it
was. -/
structure AllOrNothing (p q : Pipeline) : Prop where
  all : ∀ left, q.appendInPlace.perform p = (.ok (), left) ↔
    Joins CompiledStep.Feeds p.steps q.steps ∧ left = p.joined q
  nothing : ∀ e left, q.appendInPlace.perform p = (.error e, left) → left = p
  append : ∀ left, q.appendInPlace.perform p = (.ok (), left) ↔ p.append q = .ok left

theorem allOrNothing (p q : Pipeline) : AllOrNothing p q where
  all _ := appendInPlace_eq_ok
  nothing _ _ := eq_of_appendInPlace_eq_error
  append _ := appendInPlace_eq_ok.trans append_eq_ok.symm

/-! ## Three pipelines -/

theorem joined_of_ne_nil (hp : p.steps ≠ []) (q : Pipeline) :
    p.joined q = ⟨p.joinedName q, p.steps ++ q.steps⟩ := by
  unfold joined
  rw [if_neg (mt List.isEmpty_iff.mp hp)]

/-- Three pipelines as one are the same, whichever two come first. -/
theorem joined_joined (ha : a.steps ≠ []) (hb : b.steps ≠ []) (c : Pipeline) :
    (a.joined b).joined c = a.joined (b.joined c) := by
  have hab : (a.joined b).steps ≠ [] := List.append_ne_nil_of_left_ne_nil ha b.steps
  rw [joined_of_ne_nil hab, joined_of_ne_nil ha, joined_of_ne_nil ha, joined_of_ne_nil hb]
  simp [joinedName, String.append_assoc]

/-- **Appending is all or nothing, and associative:** a second pipeline and then
a third one go behind the first where the third goes behind the second and then
both behind the first, and what is left is the same. -/
theorem appendInPlace_laws :
    (∀ p q, AllOrNothing p q) ∧
      ∀ a b c : Pipeline, a.steps ≠ [] → b.steps ≠ [] → ∀ left,
        Edit.perform (do b.appendInPlace; c.appendInPlace) a = (.ok (), left) ↔
          ∃ both, c.appendInPlace.perform b = (.ok (), both) ∧
            both.appendInPlace.perform a = (.ok (), left) := by
  refine ⟨allOrNothing, fun a b c ha hb left => ?_⟩
  have hleft : Joins CompiledStep.Feeds (a.joined b).steps c.steps ↔
      Joins CompiledStep.Feeds b.steps c.steps := Joins.append_left_iff hb
  have hright : Joins CompiledStep.Feeds a.steps (b.joined c).steps ↔
      Joins CompiledStep.Feeds a.steps b.steps := Joins.append_iff hb
  rw [perform_then_eq_ok]
  simp only [appendInPlace_eq_ok]
  constructor
  · rintro ⟨_, ⟨hab, rfl⟩, hbc, rfl⟩
    exact ⟨_, ⟨hleft.mp hbc, rfl⟩, hright.mpr hab, joined_joined ha hb c⟩
  · rintro ⟨_, ⟨hbc, rfl⟩, hab, rfl⟩
    exact ⟨_, ⟨hright.mp hab, rfl⟩, hleft.mpr hbc, (joined_joined ha hb c).symm⟩

/-- A feature compiled alone, at a place. -/
def solo (e : Entry) (index : Nat) (command : Command) : Pipeline :=
  ⟨e.name, [⟨index, e.key, e.name, e.intake, e.progress, command⟩]⟩

theorem appendInPlace_laws_trio :
    ∃ gray silent small left : Pipeline,
      gray = solo .grayscale 0 ⟨["-vf", "hue=s=0"], none⟩ ∧
      silent = solo .removeAudio 1 ⟨["-an"], none⟩ ∧
      small = solo .resize 2 ⟨["-vf", "scale=320:240"], none⟩ ∧
      gray.steps ≠ [] ∧ silent.steps ≠ [] ∧
      Edit.perform (do silent.appendInPlace; small.appendInPlace) gray = (.ok (), left) ∧
      left.name = "Grayscale + Remove Audio + Resize" ∧
      ∃ both, small.appendInPlace.perform silent = (.ok (), both) ∧
        both.appendInPlace.perform gray = (.ok (), left) := by
  refine ⟨_, _, _, _, rfl, rfl, rfl, List.cons_ne_nil _ _, List.cons_ne_nil _ _, rfl, rfl, ?_⟩
  exact (appendInPlace_laws.2 _ _ _ (List.cons_ne_nil _ _) (List.cons_ne_nil _ _) _).mp rfl

end Pipeline

end MediaPipeline
