import Mathlib.Data.List.Forall2
/-!
# Traversal — computations that may fail, one after the other

What it takes for a chain of computations to succeed: a bind succeeds where
both parts do, a traversal where every element does, and the results of a map
are the results at the elements, in order. Where a failure says nothing, a
chain is an option. `FailsBy` says in which ways a computation may fail, and a
chain fails in the ways of its parts.
-/


namespace MediaPipeline

namespace Traversal

universe u v
variable {ε : Type u} {α β : Type v}

/-- A bind succeeds where its first part succeeds and its second part does
with what the first gave. -/
theorem bind_eq_ok {x : Except ε α} {f : α → Except ε β} {b : β} :
    (x >>= f) = .ok b ↔ ∃ a, x = .ok a ∧ f a = .ok b := by
  cases x with
  | error e => simp [bind, Except.bind]
  | ok a => simp [bind, Except.bind]

/-- A bind fails where its first part fails, or its second part does with what
the first gave. -/
theorem bind_eq_error {x : Except ε α} {f : α → Except ε β} {e : ε} :
    (x >>= f) = .error e ↔ x = .error e ∨ ∃ a, x = .ok a ∧ f a = .error e := by
  cases x with
  | error e => simp [bind, Except.bind]
  | ok a => simp [bind, Except.bind]

/-- A computation without a result of its own comes first in the same way. -/
theorem then_eq_ok {x : Except ε PUnit} {y : Except ε β} {b : β} :
    (x >>= fun _ => y) = .ok b ↔ x = .ok ⟨⟩ ∧ y = .ok b := by
  rw [bind_eq_ok]
  exact ⟨fun ⟨_, hx, hy⟩ => ⟨hx, hy⟩, fun ⟨hx, hy⟩ => ⟨_, hx, hy⟩⟩

theorem map_eq_ok {x : Except ε α} {f : α → β} {b : β} :
    x.map f = .ok b ↔ ∃ a, x = .ok a ∧ f a = b := by
  cases x with
  | error e => simp [Except.map]
  | ok a => simp [Except.map]

theorem map_eq_error {x : Except ε α} {f : α → β} {e : ε} :
    x.map f = .error e ↔ x = .error e := by
  cases x with
  | error e => simp [Except.map]
  | ok a => simp [Except.map]

/-- **A map succeeds where it does at every element**, and gives the results
in the order of the elements. -/
theorem mapM_eq_ok {f : α → Except ε β} {l : List α} {bs : List β} :
    l.mapM f = .ok bs ↔ List.Forall₂ (fun a b => f a = .ok b) l bs := by
  induction l generalizing bs with
  | nil =>
    cases bs with
    | nil => simp [pure, Except.pure]
    | cons b bs => simp [pure, Except.pure]
  | cons a l ih =>
    rw [List.mapM_cons, bind_eq_ok]
    constructor
    · rintro ⟨b, hb, h⟩
      obtain ⟨bs', hbs', h⟩ := bind_eq_ok.mp h
      cases h
      exact .cons hb (ih.mp hbs')
    · rintro (_ | ⟨hb, hbs⟩)
      exact ⟨_, hb, bind_eq_ok.mpr ⟨_, ih.mpr hbs, rfl⟩⟩

/-- The results of a map exist where every element has one. -/
theorem exists_forall₂ {R : α → β → Prop} {l : List α} (h : ∀ a ∈ l, ∃ b, R a b) :
    ∃ bs, List.Forall₂ R l bs := by
  induction l with
  | nil => exact ⟨[], .nil⟩
  | cons a l ih =>
    obtain ⟨b, hb⟩ := h a List.mem_cons_self
    obtain ⟨bs, hbs⟩ := ih fun a' ha' => h a' (List.mem_cons_of_mem a ha')
    exact ⟨b :: bs, .cons hb hbs⟩

/-- What was paired with an element of the second list is in the first one. -/
theorem exists_of_forall₂_of_mem {α β : Type*} {R : α → β → Prop} {l : List α} {bs : List β}
    {b : β} (h : List.Forall₂ R l bs) (hb : b ∈ bs) : ∃ a ∈ l, R a b := by
  induction h with
  | nil => exact absurd hb List.not_mem_nil
  | cons hR _ ih =>
    rcases List.mem_cons.mp hb with rfl | hb
    · exact ⟨_, List.mem_cons_self, hR⟩
    · obtain ⟨a, ha, hR⟩ := ih hb
      exact ⟨a, List.mem_cons_of_mem _ ha, hR⟩

/-- **A traversal succeeds where it does at every element.** -/
theorem forM_eq_ok {f : α → Except ε PUnit} {l : List α} :
    l.forM f = .ok ⟨⟩ ↔ ∀ a ∈ l, f a = .ok ⟨⟩ := by
  induction l with
  | nil => exact ⟨fun _ a ha => absurd ha List.not_mem_nil, fun _ => rfl⟩
  | cons a l ih =>
    change (f a >>= fun _ => l.forM f) = .ok ⟨⟩ ↔ _
    rw [then_eq_ok, ih, List.forall_mem_cons]

/-- A traversal fails at the first element where it does, in the way it does
there. The elements before it succeed. -/
theorem forM_eq_error {f : α → Except ε PUnit} {l : List α} {e : ε} :
    l.forM f = .error e ↔ ∃ before a after, l = before ++ a :: after ∧
      (∀ b ∈ before, f b = .ok ⟨⟩) ∧ f a = .error e := by
  induction l with
  | nil =>
    constructor
    · intro h
      cases h
    · rintro ⟨before, a, after, hl, -⟩
      exact absurd hl.symm (List.append_ne_nil_of_right_ne_nil before (List.cons_ne_nil a after))
  | cons first l ih =>
    change (f first >>= fun _ => l.forM f) = .error e ↔ _
    rw [bind_eq_error]
    constructor
    · rintro (h | ⟨_, hfirst, h⟩)
      · exact ⟨[], first, l, rfl, fun _ hmem => absurd hmem List.not_mem_nil, h⟩
      · obtain ⟨before, a, after, rfl, hbefore, ha⟩ := ih.mp h
        exact ⟨first :: before, a, after, rfl, List.forall_mem_cons.mpr ⟨hfirst, hbefore⟩, ha⟩
    · rintro ⟨before, a, after, hl, hbefore, ha⟩
      cases before with
      | nil =>
        obtain ⟨rfl, rfl⟩ := List.cons.inj hl
        exact .inl ha
      | cons b before =>
        obtain ⟨rfl, rfl⟩ := List.cons.inj hl
        obtain ⟨hb, hbefore⟩ := List.forall_mem_cons.mp hbefore
        exact .inr ⟨_, hb, ih.mpr ⟨before, a, after, rfl, hbefore, ha⟩⟩

/-- In an ascending row, the first element is the least one. -/
theorem forM_eq_error_of_pairwise {lt : α → α → Prop} {f : α → Except ε PUnit} {l : List α}
    {e : ε} (hirrefl : ∀ a, ¬ lt a a) (hasymm : ∀ a b, lt a b → ¬ lt b a) (hl : l.Pairwise lt) :
    l.forM f = .error e ↔
      ∃ a ∈ l, f a = .error e ∧ ∀ b ∈ l, lt b a → f b = .ok ⟨⟩ := by
  rw [forM_eq_error]
  constructor
  · rintro ⟨before, a, after, rfl, hbefore, ha⟩
    refine ⟨a, List.mem_append_right before List.mem_cons_self, ha, fun b hb hlt => ?_⟩
    obtain ⟨-, hafter, -⟩ := List.pairwise_append.mp hl
    rcases List.mem_append.mp hb with hb | hb
    · exact hbefore b hb
    · rcases List.mem_cons.mp hb with rfl | hb
      · exact absurd hlt (hirrefl b)
      · exact absurd hlt (hasymm a b ((List.pairwise_cons.mp hafter).1 b hb))
  · rintro ⟨a, ha, hfail, hbelow⟩
    obtain ⟨before, after, rfl⟩ := List.append_of_mem ha
    obtain ⟨-, -, hacross⟩ := List.pairwise_append.mp hl
    refine ⟨before, a, after, rfl, fun b hb => ?_, hfail⟩
    exact hbelow b (List.mem_append_left _ hb) (hacross b hb a List.mem_cons_self)

/-- A traversal of rows goes through each row in turn. -/
theorem forM_flatMap {γ : Type*} {f : α → Except ε PUnit} {rows : γ → List α} {l : List γ} :
    (l.flatMap rows).forM f = l.forM fun i => (rows i).forM f := by
  induction l with
  | nil => rfl
  | cons i l ih =>
    rw [List.flatMap_cons, List.forM_eq_forM, List.forM_append]
    change ((rows i).forM f >>= fun _ => (l.flatMap rows).forM f) = _
    rw [ih]
    rfl

/-- **A map fails at the first element where it does**, in the way it does
there. The elements before it have results. -/
theorem mapM_eq_error {f : α → Except ε β} {l : List α} {e : ε} :
    l.mapM f = .error e ↔ ∃ before a after, l = before ++ a :: after ∧
      (∀ b ∈ before, ∃ c, f b = .ok c) ∧ f a = .error e := by
  induction l with
  | nil => simp [pure, Except.pure]
  | cons first l ih =>
    rw [List.mapM_cons, bind_eq_error]
    constructor
    · rintro (h | ⟨b, hb, h⟩)
      · exact ⟨[], first, l, rfl, fun _ hmem => absurd hmem List.not_mem_nil, h⟩
      · rcases bind_eq_error.mp h with h | ⟨bs, -, h⟩
        · obtain ⟨before, a, after, rfl, hbefore, ha⟩ := ih.mp h
          exact ⟨first :: before, a, after, rfl, List.forall_mem_cons.mpr ⟨⟨b, hb⟩, hbefore⟩, ha⟩
        · cases h
    · rintro ⟨before, a, after, hl, hbefore, ha⟩
      cases before with
      | nil =>
        obtain ⟨rfl, rfl⟩ := List.cons.inj hl
        exact .inl ha
      | cons b before =>
        obtain ⟨rfl, rfl⟩ := List.cons.inj hl
        obtain ⟨⟨c, hc⟩, hbefore⟩ := List.forall_mem_cons.mp hbefore
        have hrest := ih.mpr ⟨before, a, after, rfl, hbefore, ha⟩
        exact .inr ⟨c, hc, bind_eq_error.mpr (.inl hrest)⟩

/-- A map that fails fails at an element. -/
theorem exists_of_mapM_eq_error {f : α → Except ε β} {l : List α} {e : ε}
    (h : l.mapM f = .error e) : ∃ a ∈ l, f a = .error e := by
  obtain ⟨before, a, after, rfl, -, ha⟩ := mapM_eq_error.mp h
  exact ⟨a, List.mem_append_right before List.mem_cons_self, ha⟩

/-- Maps that do the same at every element do the same. -/
theorem mapM_congr {f g : α → Except ε β} {l : List α} (h : ∀ a ∈ l, f a = g a) :
    l.mapM f = l.mapM g := by
  induction l with
  | nil => rfl
  | cons a l ih =>
    have hrest := ih fun a' ha' => h a' (List.mem_cons_of_mem a ha')
    rw [List.mapM_cons, List.mapM_cons, h a List.mem_cons_self, hrest]

/-- **What a fold keeps at every element holds of its result.** -/
theorem foldlM_induction {f : β → α → Except ε β} {l : List α} {P : β → Prop} {b c : β}
    (h : l.foldlM f b = .ok c) (hb : P b)
    (hkeep : ∀ a ∈ l, ∀ b c, P b → f b a = .ok c → P c) : P c := by
  induction l generalizing b with
  | nil =>
    cases h
    exact hb
  | cons a l ih =>
    rw [List.foldlM_cons] at h
    obtain ⟨next, hnext, h⟩ := bind_eq_ok.mp h
    have hnextP : P next := hkeep a List.mem_cons_self b next hb hnext
    exact ih h hnextP fun a' ha' => hkeep a' (List.mem_cons_of_mem a ha')

/-- A fold that succeeds succeeds at every element. -/
theorem exists_of_foldlM_eq_ok {f : β → α → Except ε β} {l : List α} {a : α} {b c : β}
    (h : l.foldlM f b = .ok c) (ha : a ∈ l) : ∃ before after, f before a = .ok after := by
  induction l generalizing b with
  | nil => exact absurd ha List.not_mem_nil
  | cons first l ih =>
    rw [List.foldlM_cons] at h
    obtain ⟨next, hnext, h⟩ := bind_eq_ok.mp h
    rcases List.mem_cons.mp ha with rfl | ha
    · exact ⟨b, next, hnext⟩
    · exact ih h ha

/-- Folds that do the same at every element do the same. -/
theorem foldlM_congr {f g : β → α → Except ε β} {l : List α} {b : β}
    (h : ∀ a ∈ l, ∀ b, f b a = g b a) : l.foldlM f b = l.foldlM g b := by
  induction l generalizing b with
  | nil => rfl
  | cons a l ih =>
    rw [List.foldlM_cons, List.foldlM_cons, h a List.mem_cons_self]
    congr 1
    funext next
    exact ih fun a' ha' => h a' (List.mem_cons_of_mem a ha')

/-! ## Failures without a word -/

section Option

variable {γ : Type v} {f : β → α → Option β} {l : List α} {b c : β}

/-- **A map gives back its elements** where it gives back each of them. -/
theorem mapM_eq_some_self {f : α → Option α} {l : List α} :
    l.mapM f = some l ↔ ∀ a ∈ l, f a = some a := by
  induction l with
  | nil => simp
  | cons a l ih =>
    rw [List.mapM_cons, List.forall_mem_cons, ← ih]
    cases f a with
    | none => simp
    | some a' => cases l.mapM f <;> simp

/-- Each result of a map comes from an element. -/
theorem exists_of_mapM_eq_some {f : α → Option β} {bs : List β} (h : l.mapM f = some bs)
    (hb : b ∈ bs) : ∃ a ∈ l, f a = some b := by
  induction l generalizing bs with
  | nil =>
    cases h
    exact absurd hb List.not_mem_nil
  | cons a l ih =>
    rw [List.mapM_cons] at h
    obtain ⟨b', hb', h⟩ := Option.bind_eq_some_iff.mp h
    obtain ⟨bs', hbs', h⟩ := Option.bind_eq_some_iff.mp h
    cases h
    rcases List.mem_cons.mp hb with rfl | hb
    · exact ⟨a, List.mem_cons_self, hb'⟩
    · obtain ⟨a', ha', hf⟩ := ih hbs' hb
      exact ⟨a', List.mem_cons_of_mem a ha', hf⟩

/-- A fold fails where it fails at an element, whatever it has come to. -/
theorem foldlM_eq_none {a : α} (ha : a ∈ l) (hf : ∀ b, f b a = none) :
    l.foldlM f b = none := by
  induction l generalizing b with
  | nil => exact absurd ha List.not_mem_nil
  | cons first l ih =>
    rw [List.foldlM_cons]
    rcases List.mem_cons.mp ha with rfl | ha
    · rw [hf]
      rfl
    · cases f b first with
      | none => rfl
      | some next => exact ih ha

/-- A fold keeps what every element keeps. -/
theorem eq_of_foldlM_eq_some {π : β → γ} (h : l.foldlM f b = some c)
    (hf : ∀ a ∈ l, ∀ b c, f b a = some c → π c = π b) : π c = π b := by
  induction l generalizing b with
  | nil =>
    cases h
    rfl
  | cons a l ih =>
    rw [List.foldlM_cons] at h
    obtain ⟨next, hnext, h⟩ := Option.bind_eq_some_iff.mp h
    exact (ih h fun a' ha' => hf a' (List.mem_cons_of_mem a ha')).trans
      (hf a List.mem_cons_self b next hnext)

end Option

/-! ## Ways to fail -/

/-- A computation that fails in the given ways only. -/
def FailsBy (P : ε → Prop) (x : Except ε α) : Prop := ∀ e, x = .error e → P e

namespace FailsBy

variable {P Q : ε → Prop} {x : Except ε α}

theorem ok (a : α) : FailsBy P (.ok a : Except ε α) := fun _ h => nomatch h

theorem error {e : ε} (h : P e) : FailsBy P (.error e : Except ε α) :=
  fun _ he => Except.error.inj he ▸ h

theorem mono (h : FailsBy P x) (hPQ : ∀ e, P e → Q e) : FailsBy Q x :=
  fun e he => hPQ e (h e he)

theorem bind {f : α → Except ε β} (hx : FailsBy P x) (hf : ∀ a, x = .ok a → FailsBy P (f a)) :
    FailsBy P (x >>= f) := by
  intro e he
  rcases bind_eq_error.mp he with he | ⟨a, ha, he⟩
  · exact hx e he
  · exact hf a ha e he

theorem map {f : α → β} (hx : FailsBy P x) : FailsBy P (x.map f) :=
  fun e he => hx e (map_eq_error.mp he)

theorem forM {f : α → Except ε PUnit} {l : List α} (h : ∀ a ∈ l, FailsBy P (f a)) :
    FailsBy P (l.forM f) := by
  induction l with
  | nil => exact ok _
  | cons a l ih =>
    have hrest := ih fun a' ha' => h a' (List.mem_cons_of_mem a ha')
    exact (h a List.mem_cons_self).bind fun _ _ => hrest

theorem mapM {f : α → Except ε β} {l : List α} (h : ∀ a ∈ l, FailsBy P (f a)) :
    FailsBy P (l.mapM f) := by
  intro e he
  obtain ⟨a, ha, he⟩ := exists_of_mapM_eq_error he
  exact h a ha e he

theorem foldlM {f : β → α → Except ε β} {l : List α} {b : β}
    (h : ∀ a ∈ l, ∀ b, FailsBy P (f b a)) : FailsBy P (l.foldlM f b) := by
  induction l generalizing b with
  | nil => exact ok _
  | cons a l ih =>
    rw [List.foldlM_cons]
    exact (h a List.mem_cons_self b).bind fun _ _ =>
      ih fun a' ha' => h a' (List.mem_cons_of_mem a ha')

end FailsBy

end Traversal

end MediaPipeline
