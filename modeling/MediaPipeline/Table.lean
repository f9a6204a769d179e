/-!
# Table — values filed under ascending keys

A table is a list of pairs in strictly ascending order of their keys, so two
tables with the same entries are the same list. `alter` is the one way to
change it; looking up after `alter` gives the altered value at its key and
leaves every other key as it was.
-/


namespace MediaPipeline

namespace Table

variable {κ α : Type}

/-- Each key stands before the keys that are greater. -/
def Ascending [LT κ] (t : List (κ × α)) : Prop := t.Pairwise fun a b => a.1 < b.1

/-- The value at a key. -/
def get? [DecidableEq κ] (t : List (κ × α)) (k : κ) : Option α :=
  (t.find? fun e => e.1 = k).map (·.2)

/-- The keys, in order. -/
def keys (t : List (κ × α)) : List κ := t.map (·.1)

/-- The table with what `f` makes of the value at a key, or of its absence. -/
def alter [LT κ] [DecidableEq κ] [DecidableLT κ] (k : κ) (f : Option α → α) :
    List (κ × α) → List (κ × α)
  | [] => [(k, f none)]
  | (key, a) :: rest =>
    if k < key then (k, f none) :: (key, a) :: rest
    else if k = key then (k, f (some a)) :: rest
    else (key, a) :: alter k f rest

/-- The table with a value at a key, in place of any value it had. -/
def insert [LT κ] [DecidableEq κ] [DecidableLT κ] (k : κ) (a : α) (t : List (κ × α)) :
    List (κ × α) :=
  alter k (fun _ => a) t

theorem ascending_nil [LT κ] : Ascending ([] : List (κ × α)) := List.Pairwise.nil

section Laws

variable [LT κ] [DecidableEq κ] [DecidableLT κ]

theorem mem_keys_alter {k k' : κ} {f : Option α → α} {t : List (κ × α)} :
    k' ∈ keys (alter k f t) ↔ k' = k ∨ k' ∈ keys t := by
  induction t with
  | nil => simp [alter, keys]
  | cons e rest ih =>
    obtain ⟨key, a⟩ := e
    simp only [alter]
    split
    · simp [keys]
    · split
      · rename_i hk
        simp [keys, hk]
      · simp only [keys, List.map_cons, List.mem_cons] at ih ⊢
        rw [ih]
        exact or_left_comm

/-- A change keeps the order. -/
theorem Ascending.alter [Std.Trichotomous (α := κ) (· < ·)]
    [Trans (α := κ) (· < ·) (· < ·) (· < ·)] {t : List (κ × α)} (h : Ascending t) (k : κ)
    (f : Option α → α) : Ascending (Table.alter k f t) := by
  induction t with
  | nil => exact List.pairwise_singleton _ _
  | cons e rest ih =>
    obtain ⟨key, a⟩ := e
    have hrest : Ascending rest := (List.pairwise_cons.mp h).2
    have hfirst : ∀ e ∈ rest, key < e.1 := (List.pairwise_cons.mp h).1
    simp only [Table.alter]
    split
    · rename_i hlt
      refine List.pairwise_cons.mpr ⟨?_, h⟩
      intro e he
      rcases List.mem_cons.mp he with rfl | he
      · exact hlt
      · exact Trans.trans hlt (hfirst e he)
    · rename_i hnot
      split
      · rename_i heq
        subst heq
        exact List.pairwise_cons.mpr ⟨hfirst, hrest⟩
      · rename_i hne
        have hgt : key < k := by
          rcases Std.lt_trichotomy k key with hlt | heq | hgt
          · exact absurd hlt hnot
          · exact absurd heq hne
          · exact hgt
        refine List.pairwise_cons.mpr ⟨?_, ih hrest⟩
        intro e he
        have hkey : e.1 ∈ keys (Table.alter k f rest) := List.mem_map_of_mem he
        rcases mem_keys_alter.mp hkey with heq | hmem
        · rw [heq]
          exact hgt
        · obtain ⟨e', he', heq⟩ := List.mem_map.mp hmem
          rw [← heq]
          exact hfirst e' he'

theorem Ascending.insert [Std.Trichotomous (α := κ) (· < ·)]
    [Trans (α := κ) (· < ·) (· < ·) (· < ·)] {t : List (κ × α)} (h : Ascending t) (k : κ)
    (a : α) : Ascending (Table.insert k a t) :=
  h.alter k _

end Laws

end Table

end MediaPipeline
