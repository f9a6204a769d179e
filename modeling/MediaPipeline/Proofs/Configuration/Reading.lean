import MediaPipeline.Configuration.Json
import MediaPipeline.Proofs.Configuration.Scopes
import MediaPipeline.Proofs.Json.Records
import MediaPipeline.Proofs.Text.Digits
import MediaPipeline.StepConfigs
/-!
# Configuration/Reading — which configurations are read back

A scope is written as one object, and the member for its value stands beside
the members for the scopes in it. So there are two things that no reader can
undo: a number that JSON has no text for is written as null, and a scope with
the name of the value stands where a value is expected, and no object is one.
Everything else is read back: members are filed in the order in which they were
written (`foldlM_file_eq_some`), each scope is read back where it and every
scope in it is free of both (`Scope.read?_toJson`), and a clash anywhere below
makes the reading fail (`Scope.read?_of_clash`).
-/


namespace MediaPipeline

namespace Scope

variable {n : Scope} {room : Nat} {v : Option Leaf}
variable {cs : List (String × Scope)} {readScope : Json → Option Sound} {d : Draft}

/-! ## What no reader can undo -/

/-- A scope whose value is not an infinity or a NaN. -/
def Finite (n : Scope) : Prop := ∀ x, n.value = some (.number x) → Decimal.isFinite x = true

/-- A scope with no scope in it that has the name of the value. -/
def ClashFree (n : Scope) : Prop := valueName ∉ Table.keys n.inner

/-! ## Members -/

/-- The member for a scope in a scope. -/
def member (e : String × Scope) : Json.Name × Json := (.plain e.1, e.2.toJson)

theorem innerJson_eq_map (cs : List (String × Scope)) : innerJson cs = cs.map member := by
  induction cs with
  | nil => rfl
  | cons e rest ih => rw [innerJson, ih, List.map_cons, member]

theorem depth_lt_of_mem_inner {e : String × Scope} (h : e ∈ n.inner) :
    e.2.toJson.depth < n.toJson.depth := by
  obtain ⟨v, cs⟩ := n
  have hmem : member e ∈ valueMembers v ++ innerJson cs := by
    rw [innerJson_eq_map]
    exact List.mem_append_right _ (List.mem_map_of_mem h)
  exact Json.depth_lt_of_mem_object hmem

/-- **A value is read back** where it is no infinity and no NaN. -/
theorem foldlM_valueMembers (readScope : Json → Option Sound) (v : Option Leaf) :
    ∃ d : Draft, (valueMembers v).foldlM (Draft.add? readScope) {} = some d ∧
      d.scope.1 = .empty ∧
      (d.value.getD none = v ↔ ∀ x, v = some (.number x) → Decimal.isFinite x = true) := by
  rcases v with _ | (b | x | s)
  · exact ⟨_, rfl, rfl, by simp⟩
  · exact ⟨_, rfl, rfl, by simp⟩
  · by_cases hx : Decimal.isFinite x = true
    · refine ⟨{ value := some (some (.number x)) }, ?_, rfl, by simp [hx]⟩
      simp [valueMembers, Draft.add?, Leaf.toJson, Json.float, hx, Json.option?, Leaf.ofJson?]
    · refine ⟨{ value := some none }, ?_, rfl, by simp [hx]⟩
      simp [valueMembers, Draft.add?, Leaf.toJson, Json.float, hx, Json.option?]
  · exact ⟨_, rfl, rfl, by simp⟩

/-- A member for a scope leaves the value as it is and files the scope. -/
theorem Draft.add?_member (readScope : Json → Option Sound) (d : Draft) {e : String × Scope}
    (h : e.1 ≠ valueName) :
    Draft.add? readScope d (member e) = (readScope e.2.toJson).map fun n =>
      { d with scope := ⟨d.scope.1.withInner e.1 n.1, withInner_ordered d.scope.2 e.1 n.2⟩ } := by
  unfold Draft.add?
  cases hread : readScope e.2.toJson <;> simp [member, h, hread]

/-- A scope with the name of the value is refused, whether or not there is a
value beside it, since no value is an object. -/
theorem Draft.add?_clash (readScope : Json → Option Sound) (d : Draft) {e : String × Scope}
    (h : e.1 = valueName) : Draft.add? readScope d (member e) = none := by
  obtain ⟨name, v, cs⟩ := e
  obtain rfl : name = valueName := h
  unfold Draft.add?
  simp [member, toJson, Json.option?, Leaf.ofJson?]

/-! ## Scopes -/

/-- The scopes in a scope are filed behind one another, beside the value. -/
theorem Draft.foldlM_add?_eq_some (readScope : Json → Option Sound) (v : Option Leaf)
    (hscope : d.scope.1 = .empty) (hasc : Table.Ascending cs) (hfree : valueName ∉ Table.keys cs) :
    (∃ d', (cs.map member).foldlM (Draft.add? readScope) d = some d' ∧ d'.finish.1 = .mk v cs) ↔
      d.value.getD none = v ∧ ∀ e ∈ cs, (readScope e.2.toJson).map Subtype.val = some e.2 := by
  have hname (e : String × Scope) (he : e ∈ cs) : e.1 ≠ valueName :=
    fun h => hfree (h ▸ List.mem_map_of_mem he)
  have hvalue (d' : Draft) (h : (cs.map member).foldlM (Draft.add? readScope) d = some d') :
      d'.value = d.value := by
    refine Traversal.eq_of_foldlM_eq_some h fun m hm d d' hstep => ?_
    obtain ⟨e, he, rfl⟩ := List.mem_map.mp hm
    rw [Draft.add?_member readScope d (hname e he)] at hstep
    obtain ⟨n, -, rfl⟩ := Option.map_eq_some_iff.mp hstep
    rfl
  have hinner : ((cs.map member).foldlM (Draft.add? readScope) d).map (·.scope.1.inner) = some cs ↔
      ∀ e ∈ cs, (readScope e.2.toJson).map Subtype.val = some e.2 := by
    refine Table.foldlM_file_eq_some (by rw [hscope]; rfl) hasc fun e he d => ?_
    rw [Draft.add?_member readScope d (hname e he), Option.map_map, Option.map_map]
    rfl
  rw [← hinner, Option.map_eq_some_iff]
  constructor
  · rintro ⟨d', hd', hfinish⟩
    obtain ⟨hv, hcs⟩ := Scope.mk.inj hfinish
    exact ⟨hvalue d' hd' ▸ hv, d', hd', hcs⟩
  · rintro ⟨hv, d', hd', hcs⟩
    refine ⟨d', hd', ?_⟩
    show Scope.mk (d'.value.getD none) d'.scope.1.inner = .mk v cs
    rw [hvalue d' hd', hv, hcs]

/-- **A clash makes the reading fail,** wherever it is. The induction is over
the scope and those in it. -/
theorem read?_of_clash (n : Scope) (room : Nat) (h : ¬ n.Throughout ClashFree) :
    read? room n.toJson = none := by
  induction n using below_induction generalizing room with
  | h n ih =>
    cases room with
    | zero => rfl
    | succ room =>
      obtain ⟨v, cs⟩ := n
      obtain ⟨e, he, hnone⟩ : ∃ e ∈ cs, ∀ d,
          Draft.add? (fun v => read? room v) d (member e) = none := by
        rw [throughout_iff, not_and_or] at h
        rcases h with hhere | hbelow
        · obtain ⟨e, he, hname⟩ := List.mem_map.mp (not_not.mp hhere)
          exact ⟨e, he, fun d => Draft.add?_clash _ d hname⟩
        · push Not at hbelow
          obtain ⟨e, he, hclash⟩ := hbelow
          refine ⟨e, he, fun d => ?_⟩
          by_cases hname : e.1 = valueName
          · exact Draft.add?_clash _ d hname
          · rw [Draft.add?_member _ d hname, ih e he room hclash]
            rfl
      have hmem : member e ∈ valueMembers v ++ innerJson cs := by
        rw [innerJson_eq_map]
        exact List.mem_append_right _ (List.mem_map_of_mem he)
      rw [toJson, read?, Traversal.foldlM_eq_none hmem hnone]
      rfl

/-- **A scope is read back** where there is room for it, and neither it nor a
scope in it is written as something else. The induction is over the scope and
those in it, with the room general. -/
theorem read?_toJson (n : Scope) (hn : n.Ordered) (h : n.toJson.depth ≤ room) :
    (read? room n.toJson).map Subtype.val = some n ↔
      n.Throughout fun n => n.Finite ∧ n.ClashFree := by
  induction n using below_induction generalizing room with
  | h n ih =>
    by_cases hclash : n.Throughout ClashFree
    · obtain ⟨v, cs⟩ := n
      obtain ⟨room, rfl⟩ : ∃ below, room = below + 1 :=
        Nat.exists_eq_add_of_le' (Nat.le_trans (Nat.le_add_left 1 _) h)
      have hbelow (e : String × Scope) (he : e ∈ cs) :
          (read? room e.2.toJson).map Subtype.val = some e.2 ↔
            e.2.Throughout fun n => n.Finite ∧ n.ClashFree :=
        have hdepth : e.2.toJson.depth < (Scope.mk v cs).toJson.depth := depth_lt_of_mem_inner he
        ih e he (allOrdered_iff.mp hn.2 e he) (Nat.le_of_lt_succ (Nat.lt_of_lt_of_le hdepth h))
      have hfree : (Scope.mk v cs).ClashFree := (throughout_iff.mp hclash).1
      obtain ⟨d, hd, hscope, hvalue⟩ := foldlM_valueMembers (fun v => read? room v) v
      have hfold := Draft.foldlM_add?_eq_some (fun v => read? room v) v hscope hn.1 hfree
      rw [toJson, innerJson_eq_map, read?, List.foldlM_append, hd, Option.map_map,
        Option.map_eq_some_iff, throughout_iff, and_iff_left hfree]
      exact hfold.trans (and_congr hvalue (forall₂_congr hbelow))
    · rw [read?_of_clash n room hclash, throughout_and]
      simp [hclash]

end Scope

/-! ## Configurations -/

namespace Configuration

variable {c d : Configuration} {room : Nat}

theorem add?_member (readScope : Json → Option Scope.Sound) (c : Configuration)
    (e : String × Scope) :
    (add? readScope c (Scope.member e)).map fields =
      ((readScope e.2.toJson).map Subtype.val).map fun n => Table.insert e.1 n c.fields := by
  unfold add?
  cases hread : readScope e.2.toJson <;> simp [Scope.member, insert, hread]

/-- **A configuration is read back** where there is room for it, and none of its
scopes is written as something else. -/
theorem read?_toJson (c : Configuration) (h : c.toJson.depth ≤ room) :
    read? room c.toJson = some c ↔ c.Throughout fun n => n.Finite ∧ n.ClashFree := by
  obtain ⟨room, rfl⟩ : ∃ below, room = below + 1 :=
    Nat.exists_eq_add_of_le' (Nat.le_trans (Nat.le_add_left 1 _) h)
  have hfields : read? (room + 1) c.toJson = some c ↔
      ((c.fields.map Scope.member).foldlM (add? (Scope.read? room)) empty).map fields =
        some c.fields := by
    rw [toJson, Scope.innerJson_eq_map, read?, Option.map_eq_some_iff]
    exact ⟨fun h => ⟨c, h, rfl⟩, fun ⟨d, hd, hfields⟩ => eq_of_fields hfields ▸ hd⟩
  have hscope (e : String × Scope) (he : e ∈ c.fields) :
      (Scope.read? room e.2.toJson).map Subtype.val = some e.2 ↔
        e.2.Throughout fun n => n.Finite ∧ n.ClashFree := by
    have hdepth : e.2.toJson.depth < c.root.toJson.depth := Scope.depth_lt_of_mem_inner he
    refine Scope.read?_toJson e.2 (Scope.allOrdered_iff.mp c.ordered.2 e he) ?_
    exact Nat.le_of_lt_succ (Nat.lt_of_lt_of_le hdepth h)
  have hfile := Table.foldlM_file_eq_some (s := empty) rfl c.ordered.1
    fun e _ d => add?_member (Scope.read? room) d e
  exact hfields.trans (hfile.trans (forall₂_congr hscope))

/-- **A clash makes the reading fail,** wherever it is. -/
theorem read?_of_clash (c : Configuration) (room : Nat) (h : ¬ c.Throughout Scope.ClashFree) :
    read? room c.toJson = none := by
  cases room with
  | zero => rfl
  | succ room =>
    unfold Throughout at h
    push Not at h
    obtain ⟨e, he, hclash⟩ := h
    rw [toJson, Scope.innerJson_eq_map, read?]
    refine Traversal.foldlM_eq_none (List.mem_map_of_mem he) fun d => ?_
    have hadd := add?_member (Scope.read? room) d e
    rw [Scope.read?_of_clash e.2 room hclash] at hadd
    exact Option.map_eq_none_iff.mp hadd

end Configuration

/-! ## Configurations by step -/

namespace StepConfigs

/-- The member for the configuration of a step. -/
def member (e : Nat × Configuration) : Json.Name × Json := (.plain (toString e.1), e.2.toJson)

/-- A place is read back where the bits hold it. -/
theorem index?_toString (index : Nat) :
    index? (.plain (toString index)) = if index < Nat.pow 2 64 then some index else none := by
  have hdigits : (toString index).toList.all Text.isDigit = true :=
    List.all_eq_true.mpr fun c hc => Text.isDigit_of_mem_toString hc
  show (if !false && Json.isWholePart (toString index).toList &&
      (toString index).toList.all Text.isDigit &&
      Text.naturalOf (toString index).toList < Nat.pow 2 64 then _ else _) = _
  rw [Text.isWholePart_toString, hdigits, Text.naturalOf_toString]
  simp

theorem eq_of_entries {s t : StepConfigs} (h : s.entries = t.entries) : s = t := by
  cases s
  cases t
  congr

theorem add?_member (room : Nat) (s : StepConfigs) (e : Nat × Configuration) :
    (add? room s (member e)).map entries =
      (if e.1 < Nat.pow 2 64 then Configuration.read? room e.2.toJson else none).map fun c =>
        Table.insert e.1 c s.entries := by
  unfold add? member
  rw [index?_toString]
  by_cases h : e.1 < Nat.pow 2 64
  · rw [if_pos h, if_pos h]
    cases Configuration.read? room e.2.toJson <;> simp [insert]
  · rw [if_neg h, if_neg h]
    rfl

/-- **Configurations by step are read back** where the bits hold the places and
each configuration is read back. -/
theorem ofJson?_toJson (s : StepConfigs) :
    ofJson? s.toJson = some s ↔
      ∀ e ∈ s.entries, e.1 < Nat.pow 2 64 ∧ Configuration.ofJson? e.2.toJson = some e.2 := by
  have hobject : s.toJson = .object (s.entries.map member) := by
    simp [toJson, Json.record, member, Function.comp_def]
  have hentries : ofJson? s.toJson = some s ↔ ((s.entries.map member).foldlM
      (add? (Json.membersDepth (s.entries.map member))) empty).map entries = some s.entries := by
    rw [hobject, ofJson?, Json.depth, read?, Option.map_eq_some_iff]
    exact ⟨fun h => ⟨s, h, rfl⟩, fun ⟨d, hd, h⟩ => eq_of_entries h ▸ hd⟩
  have hfile := Table.foldlM_file_eq_some (s := empty) rfl s.ascending
    fun e _ d => add?_member (Json.membersDepth (s.entries.map member)) d e
  refine hentries.trans (hfile.trans (forall₂_congr fun e he => ?_))
  have hdepth : e.2.toJson.depth ≤ Json.membersDepth (s.entries.map member) :=
    Json.depth_le_membersDepth (List.mem_map_of_mem he)
  rw [Option.ite_none_right_eq_some, Configuration.ofJson?, e.2.read?_toJson hdepth,
    e.2.read?_toJson (Nat.le_refl _)]

end StepConfigs

/-- **Which configurations are read back.** Where all numbers in a configuration
are finite, it is read back exactly if no scope in a scope has the name of the
value; the names at the top do not count, since a configuration has no value of
its own. With a clash nothing is read, so a configuration is never mistaken for
another one. Configurations by step are read back exactly if each of them is, at
places that sixty-four bits hold. -/
theorem configurations_read_back :
    (∀ c : Configuration, c.Throughout Scope.Finite →
      (Configuration.ofJson? c.toJson = some c ↔ c.Throughout Scope.ClashFree) ∧
      (¬ c.Throughout Scope.ClashFree → Configuration.ofJson? c.toJson = none)) ∧
    ∀ s : StepConfigs, StepConfigs.ofJson? s.toJson = some s ↔
      ∀ e ∈ s.entries, e.1 < Nat.pow 2 64 ∧ Configuration.ofJson? e.2.toJson = some e.2 := by
  refine ⟨fun c hfinite => ⟨?_, c.read?_of_clash _⟩, StepConfigs.ofJson?_toJson⟩
  rw [Configuration.ofJson?, c.read?_toJson (Nat.le_refl _), Configuration.throughout_and]
  exact and_iff_right hfinite

/-- A configuration with the name of a value at its top. -/
def Configuration.labelled : Configuration :=
  (Configuration.empty.set "value" (.number 1.5)).set "value.WIDTH" (.text "wide")

/-- A configuration with the name of a value further down. -/
def Configuration.mislabelled : Configuration := Configuration.empty.set "CROP.value" (.number 1920)

theorem configurations_read_back_labelled :
    Configuration.ofJson? Configuration.labelled.toJson = some Configuration.labelled ∧
      Configuration.ofJson? Configuration.mislabelled.toJson = none := by
  have hlabelled : Configuration.labelled.fields =
      [("value", .mk (some (.number 1.5)) [("WIDTH", .leaf (.text "wide"))])] := by rfl
  have hmislabelled : Configuration.mislabelled.fields =
      [("CROP", .mk none [("value", .leaf (.number 1920))])] := by rfl
  have hhalf : Decimal.isFinite 1.5 = true := by rfl
  have hwhole : Decimal.isFinite 1920 = true := by rfl
  constructor
  · refine (configurations_read_back.1 .labelled ?_).1.mpr ?_ <;>
      simp [Configuration.Throughout, hlabelled, Scope.leaf, Scope.throughout_mk, Scope.Finite,
        Scope.value, hhalf, Scope.ClashFree, Scope.inner, Table.keys, Scope.valueName]
  · refine (configurations_read_back.1 .mislabelled ?_).2 ?_ <;>
      simp [Configuration.Throughout, hmislabelled, Scope.leaf, Scope.throughout_mk, Scope.Finite,
        Scope.value, hwhole, Scope.ClashFree, Scope.inner, Table.keys, Scope.valueName]

end MediaPipeline
