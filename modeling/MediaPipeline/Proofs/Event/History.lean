import MediaPipeline.Event.Bus
import Mathlib.Data.List.Basic
/-!
# Event/History — what a bus remembers

Events are emitted by any sessions, while listeners come, catch up and leave.
An `Audience` is a bus with its listeners, and a `Use` is what one can do with
it. `Remembers` says what a bus keeps of the events so far: the latest ones,
newest first, as many as the history and the slots ask for. One event more
keeps that, before and after the oldest one falls out (`Remembers.emit`), and a
listener changes nothing of it; so it holds after every course of uses
(`Remembers.after`). What a late view is shown is then the end of what was
emitted (`recent_recounts`).
-/


namespace MediaPipeline

namespace Bus

/-! ## A bus and its listeners -/

/-- What a session emits on a bus. -/
abbrev Emission : Type := SessionId × Announcement

/-- What can be done with a bus: an event is emitted, or a listener comes, gets
what there is for it, or leaves. -/
inductive Use where
  | emit (session : SessionId) (a : Announcement)
  | subscribe
  | drain (listener : Nat)
  | leave (listener : Nat)

/-- What is emitted by some uses, in order. -/
def emissions (uses : List Use) : List Emission :=
  uses.filterMap fun
    | .emit session a => some (session, a)
    | _ => none

/-- A bus and those who listen to it. -/
structure Audience where
  bus : Bus
  listeners : List Receiver := []

namespace Audience

/-- A new bus, to which nobody listens. -/
def empty (capacity : Nat) : Audience := { bus := .ofCapacity capacity }

/-- The bus and its listeners after a use. -/
def after (x : Audience) : Use → Audience
  | .emit session a => { x with bus := x.bus.emit session a }
  | .subscribe => { x with listeners := x.listeners ++ [x.bus.subscribe] }
  | .drain k => { x with listeners := x.listeners.modify k fun r => (r.drain x.bus).2 }
  | .leave k => { x with listeners := x.listeners.eraseIdx k }

/-- The bus and its listeners after some uses. -/
def afterAll (x : Audience) (uses : List Use) : Audience := uses.foldl after x

end Audience

variable {emitted : List Emission} {b : Bus} {session : SessionId} {a : Announcement}

/-! ## What is kept -/

/-- The events that were emitted, with their numbers. -/
def numbered (emitted : List Emission) : List Event :=
  emitted.mapIdx fun number e => ⟨number, e.1, e.2⟩

theorem length_numbered (emitted : List Emission) : (numbered emitted).length = emitted.length :=
  List.length_mapIdx

/-- A new event is the newest one, and has the number behind the others. -/
theorem reverse_numbered_concat (emitted : List Emission) (e : Emission) :
    (numbered (emitted ++ [e])).reverse =
      ⟨emitted.length, e.1, e.2⟩ :: (numbered emitted).reverse := by
  unfold numbered
  rw [List.mapIdx_concat, List.reverse_concat]

/-- **What a bus keeps of the events so far:** the latest ones, the newest first. -/
structure Remembers (emitted : List Emission) (b : Bus) : Prop where
  count : b.emitted = emitted.length
  kept : b.kept = (numbered emitted).reverse.take (max historySize b.slots)

/-- Nothing was emitted on a new bus. -/
theorem remembers_ofCapacity (capacity : Nat) : Remembers [] (ofCapacity capacity) :=
  ⟨rfl, List.take_nil.symm⟩

/-- What was cut to a length may be cut before something is put in front. -/
theorem take_cons_take {α : Type} (k : Nat) (x : α) (xs : List α) :
    (x :: xs.take k).take k = (x :: xs).take k := by
  cases k with
  | zero => rfl
  | succ k =>
    rw [List.take_succ_cons, List.take_succ_cons, List.take_take, Nat.min_eq_left k.le_succ]

/-- **One event more.** Where the bus is full, the oldest one falls out. -/
theorem Remembers.emit (h : Remembers emitted b) (hfew : emitted.length < numbers) :
    Remembers (emitted ++ [(session, a)]) (b.emit session a) where
  count := by
    show b.emitted + 1 = _
    rw [h.count, List.length_append, List.length_singleton]
  kept := by
    show (Event.mk (b.emitted % numbers) session a :: b.kept).take (max historySize b.slots) = _
    rw [h.count, Nat.mod_eq_of_lt hfew, h.kept, take_cons_take, reverse_numbered_concat]
    rfl

/-- The events that a late view is shown are the last ones that were emitted. -/
theorem Remembers.recent_eq (h : Remembers emitted b) (n : Nat) :
    b.recent n = (numbered emitted).reverse.take (min n historySize) := by
  unfold recent history
  rw [h.kept, List.take_take, List.take_take, Nat.min_assoc,
    Nat.min_eq_left (Nat.le_max_left historySize b.slots)]

/-! ## A course of uses -/

/-- One use of a bus adds what it emits, whoever listens. -/
theorem Remembers.after {x : Audience} (h : Remembers emitted x.bus) (use : Use)
    (hfew : (emitted ++ emissions [use]).length ≤ numbers) :
    Remembers (emitted ++ emissions [use]) (x.after use).bus := by
  cases use with
  | emit session a =>
    have hlength : (emitted ++ emissions [Use.emit session a]).length = emitted.length + 1 := by
      simp [emissions]
    exact h.emit (by omega)
  | subscribe | drain k | leave k =>
    show Remembers (emitted ++ []) x.bus
    rwa [List.append_nil]

/-- **A course of uses adds what they emit, in order.** The induction is over
the uses, for every list of events before them. -/
theorem Remembers.afterAll {x : Audience} (h : Remembers emitted x.bus) (uses : List Use)
    (hfew : (emitted ++ emissions uses).length ≤ numbers) :
    Remembers (emitted ++ emissions uses) (x.afterAll uses).bus := by
  induction uses generalizing x emitted with
  | nil =>
    show Remembers (emitted ++ []) x.bus
    rwa [List.append_nil]
  | cons use rest ih =>
    have hsplit : emissions (use :: rest) = emissions [use] ++ emissions rest :=
      List.filterMap_append (l := [use])
    rw [hsplit, ← List.append_assoc] at hfew ⊢
    have hfirst : (emitted ++ emissions [use]).length ≤ numbers := by
      rw [List.length_append] at hfew
      omega
    exact ih (h.after use hfirst) hfew

/-! ## What a late view is shown -/

/-- **The last of the events that were emitted, newest first:** as many as were
asked for, as are remembered and as there are. The one at a place has the number
that is so far behind the last one, and is what was emitted under this number. -/
structure Recounts (emitted : List Emission) (n : Nat) (events : List Event) : Prop where
  length : events.length = min n (min historySize emitted.length)
  each : ∀ (k : Nat) (e : Event), events[k]? = some e →
    e.number + k + 1 = emitted.length ∧ emitted[e.number]? = some (e.session, e.announcement)

theorem Remembers.recounts (h : Remembers emitted b) (n : Nat) :
    Recounts emitted n (b.recent n) where
  length := by
    rw [h.recent_eq, List.length_take, List.length_reverse, length_numbered, Nat.min_assoc]
  each k e he := by
    rw [h.recent_eq, List.getElem?_take] at he
    split at he
    · obtain ⟨hk, -⟩ := List.getElem?_eq_some_iff.mp he
      rw [List.length_reverse, length_numbered] at hk
      rw [List.getElem?_reverse (by rw [length_numbered]; exact hk), length_numbered, numbered,
        List.getElem?_mapIdx] at he
      obtain ⟨emission, hemission, rfl⟩ := Option.map_eq_some_iff.mp he
      refine ⟨?_, hemission⟩
      show emitted.length - 1 - k + k + 1 = emitted.length
      omega
    · cases he

/-- **A late view is shown the end of what was emitted,** on a bus of any
capacity and whoever listened, as long as there is a number for every event. -/
theorem recent_recounts (capacity n : Nat) {uses : List Use}
    (hfew : (emissions uses).length < numbers) :
    Recounts (emissions uses) n (((Audience.empty capacity).afterAll uses).bus.recent n) := by
  have hstart : Remembers [] (Audience.empty capacity).bus := remembers_ofCapacity capacity
  have hend := hstart.afterAll uses (Nat.le_of_lt hfew)
  exact hend.recounts n

/-- Two sessions on one bus with a single slot. A listener comes when one of them
is done, and leaves before the last event. -/
def encore : List Use :=
  List.replicate 110 (.emit ⟨⟨1⟩⟩ (.compiled 2)) ++
    [.subscribe, .emit ⟨⟨2⟩⟩ .reset, .drain 0, .leave 0, .emit ⟨⟨1⟩⟩ (.succeeded 2)]

theorem recent_recounts_encore :
    (emissions encore).length < numbers ∧
      Recounts (emissions encore) 1000 (((Audience.empty 0).afterAll encore).bus.recent 1000) ∧
      (((Audience.empty 0).afterAll encore).bus.recent 1000).length = 100 := by
  have hcount : (emissions encore).length = 112 := by decide
  have hfew : (emissions encore).length < numbers := by
    rw [hcount]
    decide
  have hrecounts := recent_recounts 0 1000 hfew
  refine ⟨hfew, hrecounts, ?_⟩
  rw [hrecounts.length, hcount]
  rfl

end Bus

end MediaPipeline
