/-!
# Queues with an event counter

A `Queue` hands out items in the order in which they came in.  Beside the items it has a counter
of events, by which a consumer is woken: a push first adds the item and then signals the counter.
A consumer reads and resets the counter before it takes items.
-/

namespace DnsResolver

/-- The number of events since it was last read. -/
structure EventCounter where
  count : Nat := 0
  deriving DecidableEq, Repr

namespace EventCounter

/-- Adds one event. -/
def signal (counter : EventCounter) : EventCounter :=
  ⟨counter.count + 1⟩

/-- Reads and resets the counter; without an event there is nothing to read. -/
def consume? (counter : EventCounter) : Option (Nat × EventCounter) :=
  if counter.count = 0 then none else some (counter.count, ⟨0⟩)

end EventCounter

/-- Items in the order in which they came in, and the events that announce them. -/
structure Queue (α : Type) where
  items : List α := []
  events : EventCounter := {}
  deriving DecidableEq, Repr

namespace Queue

variable {α : Type}

/-- The number of items. -/
def size (queue : Queue α) : Nat :=
  queue.items.length

/-- Whether there is no item. -/
def isEmpty (queue : Queue α) : Bool :=
  queue.items.isEmpty

/-- Adds an item behind the others without announcing it. -/
def append (queue : Queue α) (item : α) : Queue α :=
  { queue with items := queue.items ++ [item] }

/-- Adds one event. -/
def signal (queue : Queue α) : Queue α :=
  { queue with events := queue.events.signal }

/-- Adds an item behind the others and announces it. -/
def push (queue : Queue α) (item : α) : Queue α :=
  (queue.append item).signal

/-- Takes the first item, if there is one. -/
def pop? (queue : Queue α) : Option (α × Queue α) :=
  match queue.items with
  | [] => none
  | item :: items => some (item, { queue with items })

/-- Reads and resets the events, if there is one. -/
def consume? (queue : Queue α) : Option (Nat × Queue α) :=
  match queue.events.consume? with
  | none => none
  | some (count, events) => some (count, { queue with events })

/-- An operation on a queue. -/
inductive Operation (α : Type) where
  | push (item : α)
  | pop
  | consume
  | signal

/-- What an operation on a queue answers. -/
inductive Outcome (α : Type) where
  | pushed
  | popped (item? : Option α)
  | consumed (count? : Option Nat)
  | signalled

/-- Runs one operation; one that finds nothing to take changes nothing. -/
def apply (queue : Queue α) : Operation α → Outcome α × Queue α
  | .push item => (.pushed, queue.push item)
  | .pop =>
    match queue.pop? with
    | none => (.popped none, queue)
    | some (item, queue) => (.popped (some item), queue)
  | .consume =>
    match queue.consume? with
    | none => (.consumed none, queue)
    | some (count, queue) => (.consumed (some count), queue)
  | .signal => (.signalled, queue.signal)

theorem items_push (queue : Queue α) (item : α) :
    (queue.push item).items = queue.items ++ [item] :=
  rfl

theorem pop?_eq_none_iff {queue : Queue α} : queue.pop? = none ↔ queue.items = [] := by
  unfold pop?
  split
  next hitems => simp [hitems]
  next hitems => simp [hitems]

/-- The item that is taken is the one in front of all that stay. -/
theorem items_of_pop?_eq_some {queue rest : Queue α} {item : α}
    (h : queue.pop? = some (item, rest)) :
    queue.items = item :: rest.items := by
  unfold pop? at h
  split at h
  next => cases h
  next hitems =>
    cases h
    exact hitems

/-- Reading the events leaves the items. -/
theorem items_of_consume?_eq_some {queue rest : Queue α} {count : Nat}
    (h : queue.consume? = some (count, rest)) :
    rest.items = queue.items := by
  unfold consume? at h
  split at h
  next => cases h
  next =>
    cases h
    rfl

/-- Taking an item makes the queue shorter by one. -/
theorem size_of_pop? {queue rest : Queue α} {item : α} (h : queue.pop? = some (item, rest)) :
    rest.size + 1 = queue.size := by
  unfold pop? at h
  split at h
  · simp at h
  · rename_i hitems
    simp only [Option.some.injEq, Prod.mk.injEq] at h
    simp [size, hitems, ← h.2]

end Queue
end DnsResolver
