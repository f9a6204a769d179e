import MediaPipeline.Event.Basic
/-!
# Event/Bus — events for those who listen and those who come late

A bus numbers events from zero on, with numbers of 64 bits. It remembers the
last hundred for a view that comes late, and keeps a number of slots for those
who listen, which is a power of two. A receiver that falls behind by more than
the slots is told how many events it missed and goes on with the oldest one that
is kept.

History and slots are queues that every event enters and that drop their oldest
one when they are full, so each of them holds the last events, as many as it has
room for. One list of the newest events is kept for both, with room for the larger
of the two: the history is its first hundred (`Bus.history`), and a receiver gets
nothing past its first `slots` (`Receiver.drain`).
-/


namespace MediaPipeline

/-- A bus: the number of slots, the number of events so far, and the events
that are kept, the newest first. -/
structure Bus where
  slots : Nat
  emitted : Nat := 0
  kept : List Event := []
  deriving Repr, Inhabited

namespace Bus

/-- How many events are remembered for a view that comes late. -/
def historySize : Nat := 100

/-- How many numbers there are for events. Behind the last one they start from
zero again. -/
def numbers : Nat := Nat.pow 2 64

/-- A bus with room for at least the given number of events, and at least
one. -/
def ofCapacity (capacity : Nat) : Bus := { slots := (max capacity 1).nextPowerOfTwo }

/-- The bus after one event more, which enters the history and the slots alike. -/
def emit (b : Bus) (session : SessionId) (a : Announcement) : Bus where
  slots := b.slots
  emitted := b.emitted + 1
  kept := (⟨b.emitted % numbers, session, a⟩ :: b.kept).take (max historySize b.slots)

/-- The bus after several events more. -/
def emitAll (b : Bus) (session : SessionId) (as : List Announcement) : Bus :=
  as.foldl (fun b a => b.emit session a) b

/-- The events that are remembered, the newest first. -/
def history (b : Bus) : List Event := b.kept.take historySize

/-- At most `n` of the events that are remembered, the newest first. -/
def recent (b : Bus) (n : Nat) : List Event := b.history.take n

/-- The events that are kept of those behind the first `count` ones, the oldest
first. -/
def since (b : Bus) (count : Nat) : List Event := (b.kept.take (b.emitted - count)).reverse

/-- A bus as it is shown to those who look for faults. -/
def describe (b : Bus) (receivers : Nat) : String :=
  s!"EventBus \x7b emitted: {b.emitted % numbers}, subscribers: {receivers} \x7d"

end Bus

/-- One who listens, by how many events it is past. -/
structure Receiver where
  next : Nat
  deriving DecidableEq, Repr, Inhabited

/-- What a receiver gets. -/
inductive Receipt where
  | event (e : Event)
  | missed (n : Nat)
  deriving DecidableEq, Repr

/-- A receiver of the events to come. -/
def Bus.subscribe (b : Bus) : Receiver := ⟨b.emitted⟩

/-- Everything that a receiver can get now, and the receiver after it. -/
def Receiver.drain (r : Receiver) (b : Bus) : List Receipt × Receiver :=
  let oldest := b.emitted - b.slots
  let receipts :=
    if r.next < oldest then .missed (oldest - r.next) :: (b.since oldest).map .event
    else (b.since r.next).map .event
  (receipts, ⟨b.emitted⟩)

end MediaPipeline
