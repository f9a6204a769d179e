import Mathlib.Data.List.Sort
import MediaPipeline.Proofs.Keyed
import MediaPipeline.Proofs.Traversal
import MediaPipeline.Table
/-!
# Table — what tables hold

A table is determined by its look-ups, since its keys ascend
(`Ascending.eq_of_get?`), and a look-up after a change gives the changed value
at its key and the old one everywhere else (`Ascending.get?_alter`), so changes
at two keys do not meet (`Ascending.alter_comm`).

Filing under a key passes the entries with smaller keys (`insert_append`), so
members that are read in the order of their keys are filed one behind the other
(`map_foldlM_file`): what is read is the table that was written exactly where
every entry of it is read back (`foldlM_file_eq_some`).
-/


namespace MediaPipeline

namespace Table

section LookUp

variable {κ α : Type} [DecidableEq κ] {t : List (κ × α)} {k : κ} {a : α}

theorem get?_cons (e : κ × α) (t : List (κ × α)) (k : κ) :
    get? (e :: t) k = if e.1 = k then some e.2 else get? t k := by
  unfold get?
  by_cases hkey : e.1 = k
  · rw [List.find?_cons_of_pos (by simpa using hkey), if_pos hkey]
    rfl
  · rw [List.find?_cons_of_neg (by simpa using hkey), if_neg hkey]

theorem mem_of_get? (h : get? t k = some a) : (k, a) ∈ t := by
  obtain ⟨e, he, rfl⟩ := Option.map_eq_some_iff.mp h
  obtain rfl : e.1 = k := by simpa using List.find?_some he
  exact List.mem_of_find?_eq_some he

end LookUp

section Order

variable {κ α : Type} [Preorder κ] {t u : List (κ × α)} {k : κ} {a : α}

theorem Ascending.nodup_keys (h : Ascending t) : (t.map Prod.fst).Nodup :=
  List.pairwise_map.mpr (h.imp ne_of_lt)

variable [DecidableEq κ]

/-- **A look-up finds the entries of a table.** -/
theorem Ascending.get?_eq_some (h : Ascending t) : get? t k = some a ↔ (k, a) ∈ t := by
  constructor
  · exact mem_of_get?
  · intro hmem
    have hfound := (Keyed.find?_key h.nodup_keys).mpr ⟨hmem, rfl⟩
    exact Option.map_eq_some_iff.mpr ⟨(k, a), hfound, rfl⟩

/-- **Tables with the same look-ups are the same.** -/
theorem Ascending.eq_of_get? (ht : Ascending t) (hu : Ascending u)
    (h : ∀ k, get? t k = get? u k) : t = u := by
  have hmem : ∀ e, e ∈ t ↔ e ∈ u := fun e => by
    rw [← ht.get?_eq_some, h, hu.get?_eq_some]
  have hperm : t.Perm u :=
    (List.perm_ext_iff_of_nodup ht.nodup_keys.of_map hu.nodup_keys.of_map).mpr hmem
  exact hperm.eq_of_pairwise (fun _ _ _ _ hlt hgt => absurd hgt (lt_asymm hlt)) ht hu

/-! ## Changes

A change is known by the look-ups after it, so changes are compared there. -/

variable [DecidableLT κ] {f g : Option α → α} {k' : κ}

/-- **A look-up after a change** gives what the change makes of the old one at
its key, and the old one at every other key. -/
theorem Ascending.get?_alter (h : Ascending t) (k : κ) (f : Option α → α) (k' : κ) :
    get? (Table.alter k f t) k' = if k = k' then some (f (get? t k)) else get? t k' := by
  induction t with
  | nil => exact get?_cons (k, f none) [] k'
  | cons e rest ih =>
    obtain ⟨key, b⟩ := e
    obtain ⟨hfirst, hrest⟩ := List.pairwise_cons.mp h
    rw [Table.alter]
    split
    · -- the key stands before all others, so it is not among them
      rename_i hlt
      have hnone : get? ((key, b) :: rest) k = none := by
        refine Option.eq_none_iff_forall_ne_some.mpr fun a ha => ?_
        rcases List.mem_cons.mp (mem_of_get? ha) with heq | hmem
        · exact absurd (congrArg Prod.fst heq) (ne_of_lt hlt)
        · exact lt_asymm hlt (hfirst _ hmem)
      rw [get?_cons (k, f none), hnone]
    · split
      · rename_i hkey
        subst hkey
        have hhere : get? ((k, b) :: rest) k = some b := by rw [get?_cons, if_pos rfl]
        rw [hhere, get?_cons, get?_cons]
        split <;> rfl
      · rename_i hkey
        have hbehind : get? ((key, b) :: rest) k = get? rest k := by
          rw [get?_cons, if_neg (Ne.symm hkey)]
        rw [hbehind, get?_cons, get?_cons, ih hrest]
        -- the entry that is passed has another key than the one changed
        by_cases hfound : key = k'
        · rw [if_pos hfound, if_neg fun heq => hkey (heq.trans hfound.symm), if_pos hfound]
        · rw [if_neg hfound, if_neg hfound]

/-- **A look-up after an insertion** gives the new value at its key, and the old
one at every other key. -/
theorem Ascending.get?_insert (h : Ascending t) (k : κ) (a : α) (k' : κ) :
    get? (Table.insert k a t) k' = if k = k' then some a else get? t k' :=
  h.get?_alter k _ k'

variable [Std.Trichotomous (α := κ) (· < ·)]

/-- A change is a matter of what it makes of the old value. -/
theorem Ascending.alter_congr (h : Ascending t) (hfg : f (get? t k) = g (get? t k)) :
    Table.alter k f t = Table.alter k g t := by
  refine (h.alter k f).eq_of_get? (h.alter k g) fun k' => ?_
  rw [h.get?_alter, h.get?_alter, hfg]

/-- Two changes at one key are one. -/
theorem Ascending.alter_alter (h : Ascending t) :
    Table.alter k f (Table.alter k g t) = Table.alter k (fun old => f (some (g old))) t := by
  refine ((h.alter k g).alter k f).eq_of_get? (h.alter k _) fun k' => ?_
  rw [(h.alter k g).get?_alter, h.get?_alter, h.get?_alter, h.get?_alter, if_pos rfl]
  split <;> rfl

/-- **Changes at two keys do not meet.** -/
theorem Ascending.alter_comm (h : Ascending t) (hne : k ≠ k') :
    Table.alter k f (Table.alter k' g t) = Table.alter k' g (Table.alter k f t) := by
  refine ((h.alter k' g).alter k f).eq_of_get? ((h.alter k f).alter k' g) fun key => ?_
  rw [(h.alter k' g).get?_alter, (h.alter k f).get?_alter, h.get?_alter, h.get?_alter,
    h.get?_alter, h.get?_alter, if_neg hne, if_neg hne.symm]
  by_cases hkey : k = key
  · rw [if_pos hkey, if_neg fun heq => hne (hkey.trans heq.symm), if_pos hkey]
  · rw [if_neg hkey, if_neg hkey]

end Order

section Entries

variable {κ α : Type} [LT κ] [DecidableEq κ] [DecidableLT κ] {P : α → Prop} {t : List (κ × α)}
variable {k : κ} {f : Option α → α}

/-- What holds of all values still holds after a change that keeps it. -/
theorem forall_mem_alter (h : ∀ e ∈ t, P e.2) (hnone : P (f none))
    (hsome : ∀ a, P a → P (f (some a))) : ∀ e ∈ alter k f t, P e.2 := by
  induction t with
  | nil => exact List.forall_mem_singleton.mpr hnone
  | cons e rest ih =>
    obtain ⟨hfirst, hrest⟩ := List.forall_mem_cons.mp h
    rw [alter]
    split
    · exact List.forall_mem_cons.mpr ⟨hnone, h⟩
    · split
      · exact List.forall_mem_cons.mpr ⟨hsome _ hfirst, hrest⟩
      · exact List.forall_mem_cons.mpr ⟨hfirst, ih hrest⟩

end Entries

section Keys

variable {κ α : Type} [LT κ] {t before after : List (κ × α)} {k : κ} {a : α}

theorem ascending_iff_keys : Ascending t ↔ (t.map Prod.fst).Pairwise (· < ·) :=
  List.pairwise_map.symm

/-- In a table in order, the entries in front of a key have smaller keys. -/
theorem Ascending.lt_of_append (h : Ascending (before ++ (k, a) :: after)) :
    ∀ e ∈ before, e.1 < k := by
  intro e he
  exact (List.pairwise_append.mp h).2.2 e he (k, a) List.mem_cons_self

end Keys

section Asymm

variable {κ α : Type} [DecidableEq κ] [LT κ] [DecidableLT κ] [Std.Asymm (α := κ) (· < ·)]
variable {k : κ} {a old : α} {before after : List (κ × α)}

/-- Filing under a key passes the entries with smaller keys. -/
theorem insert_append (h : ∀ e ∈ before, e.1 < k) :
    insert k a (before ++ after) = before ++ insert k a after := by
  induction before with
  | nil => rfl
  | cons e rest ih =>
    have hlt : e.1 < k := h e List.mem_cons_self
    have hnot : ¬ k < e.1 := Std.Asymm.asymm _ _ hlt
    have hne : k ≠ e.1 := fun heq => hnot (heq ▸ heq ▸ hlt)
    have hrest : ∀ e ∈ rest, e.1 < k := fun e he => h e (List.mem_cons_of_mem _ he)
    rw [List.cons_append, insert, alter, if_neg hnot, if_neg hne]
    rw [← insert, ih hrest, List.cons_append]

/-- Filing under a key behind all others puts the value at the end. -/
theorem insert_of_forall_lt (h : ∀ e ∈ before, e.1 < k) :
    insert k a before = before ++ [(k, a)] := by
  have hend : insert k a (before ++ []) = before ++ insert k a [] := insert_append h
  rwa [List.append_nil] at hend

/-- Filing under a key that is there puts the new value in its place. -/
theorem insert_append_cons (h : Ascending (before ++ (k, old) :: after)) :
    insert k a (before ++ (k, old) :: after) = before ++ (k, a) :: after := by
  have hirrefl : ¬ k < k := fun hlt => Std.Asymm.asymm _ _ hlt hlt
  rw [insert_append h.lt_of_append, insert, alter, if_neg hirrefl, if_pos rfl]

/-! ## Reading a table -/

variable {σ μ : Type} {file : σ → μ → Option σ} {entries : σ → List (κ × α)}
variable {member : κ × α → μ} {read : κ × α → Option α} {xs : List (κ × α)} {s : σ}

/-- **Members in the order of their keys are filed one behind the other.** The
induction is over the members that are left, with what was filed general. -/
theorem map_foldlM_file
    (hfile : ∀ e ∈ xs, ∀ s, (file s (member e)).map entries =
      (read e).map fun a => insert e.1 a (entries s))
    (hasc : Ascending (entries s ++ xs)) :
    ((xs.map member).foldlM file s).map entries =
      (xs.mapM fun e => (read e).map (Prod.mk e.1)).map (entries s ++ ·) := by
  induction xs generalizing s with
  | nil => simp
  | cons e rest ih =>
    have hlt : ∀ e' ∈ entries s, e'.1 < e.1 := hasc.lt_of_append
    have hhere := hfile e List.mem_cons_self s
    rw [List.map_cons, List.foldlM_cons, List.mapM_cons]
    cases hread : read e with
    | none =>
      rw [hread, Option.map_none, Option.map_eq_none_iff] at hhere
      simp [hhere]
    | some a =>
      rw [hread, Option.map_some] at hhere
      obtain ⟨next, hnext, hentries⟩ := Option.map_eq_some_iff.mp hhere
      rw [insert_of_forall_lt hlt] at hentries
      have hasc' : Ascending (entries next ++ rest) := by
        rw [ascending_iff_keys] at hasc ⊢
        simpa [hentries] using hasc
      have hrest := ih (fun e' he' => hfile e' (List.mem_cons_of_mem _ he')) hasc'
      simp only [hnext, Option.bind_eq_bind, Option.bind_some, hrest, hentries, Option.map_some]
      cases rest.mapM fun e => (read e).map (Prod.mk e.1) <;> simp

/-- **What is read is what was written** where every entry is read back. -/
theorem foldlM_file_eq_some (hempty : entries s = []) (hasc : Ascending xs)
    (hfile : ∀ e ∈ xs, ∀ s, (file s (member e)).map entries =
      (read e).map fun a => insert e.1 a (entries s)) :
    ((xs.map member).foldlM file s).map entries = some xs ↔ ∀ e ∈ xs, read e = some e.2 := by
  have hentry (e : κ × α) : (read e).map (Prod.mk e.1) = some e ↔ read e = some e.2 := by
    obtain ⟨k, a⟩ := e
    simp
  rw [map_foldlM_file hfile (by rwa [hempty]), hempty]
  simp only [List.nil_append, Option.map_id_fun', id_eq, Traversal.mapM_eq_some_self, hentry]

end Asymm

end Table

end MediaPipeline
