import Mathlib.Data.List.Induction
import DnsResolver.Queue

/-!
# The order of a queue

Items leave a queue in the order in which they came in, each once.  The counter of the events goes
its own way beside them: it holds what has been announced since it was read last, taking an item
does not lower it, and reading it takes no item.  It has no greatest value here, as if it never ran
full.
-/

namespace DnsResolver
namespace Queue

variable {α : Type}

/-- The item that an operation adds, if it adds one. -/
def Operation.item? : Operation α → Option α
  | .push item => some item
  | .pop | .consume | .signal => none

/-- Whether an operation adds an event. -/
def Operation.announces : Operation α → Bool
  | .push _ | .signal => true
  | .pop | .consume => false

/-- The item that was taken, if one was. -/
def Outcome.item? : Outcome α → Option α
  | .popped item? => item?
  | .pushed | .consumed _ | .signalled => none

/-- Whether events were read. -/
def Outcome.isRead : Outcome α → Bool
  | .consumed (some _) => true
  | .consumed none | .pushed | .popped _ | .signalled => false

/-- The queue after some operations. -/
def after (queue : Queue α) (operations : List (Operation α)) : Queue α :=
  operations.foldl (fun queue operation => (queue.apply operation).2) queue

/-- Each of some operations with what it answers, in order. -/
def history (queue : Queue α) : List (Operation α) → List (Operation α × Outcome α)
  | [] => []
  | operation :: operations =>
    (operation, (queue.apply operation).1) :: (queue.apply operation).2.history operations

/-- The items that operations add, in order. -/
def pushed (operations : List (Operation α)) : List α :=
  operations.filterMap Operation.item?

/-- The items that have been taken, in order. -/
def taken (history : List (Operation α × Outcome α)) : List α :=
  history.filterMap fun (_, outcome) => outcome.item?

/-- The number of events that have been added since events were read last. -/
def unread (history : List (Operation α × Outcome α)) : Nat :=
  (history.reverse.takeWhile fun (_, outcome) => !outcome.isRead).countP
    fun (operation, _) => operation.announces

theorem after_concat (queue : Queue α) (operations : List (Operation α))
    (operation : Operation α) :
    queue.after (operations ++ [operation]) = ((queue.after operations).apply operation).2 :=
  List.foldl_append

theorem history_concat (queue : Queue α) (operations : List (Operation α))
    (operation : Operation α) :
    queue.history (operations ++ [operation]) =
      queue.history operations ++ [(operation, ((queue.after operations).apply operation).1)] := by
  induction operations generalizing queue with
  | nil => rfl
  | cons first operations ih =>
    rw [List.cons_append, history, history, ih, List.cons_append]
    rfl

theorem pushed_concat (operations : List (Operation α)) (operation : Operation α) :
    pushed (operations ++ [operation]) = pushed operations ++ operation.item?.toList :=
  List.filterMap_append

theorem taken_concat (history : List (Operation α × Outcome α)) (operation : Operation α)
    (outcome : Outcome α) :
    taken (history ++ [(operation, outcome)]) = taken history ++ outcome.item?.toList :=
  List.filterMap_append

theorem unread_concat (history : List (Operation α × Outcome α)) (operation : Operation α)
    (outcome : Outcome α) :
    unread (history ++ [(operation, outcome)]) =
      if outcome.isRead then 0
      else unread history + if operation.announces then 1 else 0 := by
  rw [unread, List.reverse_append, List.reverse_singleton, List.singleton_append,
    List.takeWhile_cons]
  by_cases hread : outcome.isRead
  · simp [hread]
  · simp [hread, unread, List.countP_cons]

/-! ## What one operation does -/

theorem apply_pop_of_nil {queue : Queue α} (h : queue.items = []) :
    queue.apply .pop = (.popped none, queue) := by
  rw [apply, pop?, h]

theorem apply_pop_of_cons {queue : Queue α} {item : α} {items : List α}
    (h : queue.items = item :: items) :
    queue.apply .pop = (.popped (some item), { queue with items }) := by
  rw [apply, pop?, h]

theorem apply_consume_of_zero {queue : Queue α} (h : queue.events.count = 0) :
    queue.apply .consume = (.consumed none, queue) := by
  rw [apply, consume?, EventCounter.consume?, if_pos h]

theorem apply_consume_of_ne_zero {queue : Queue α} (h : queue.events.count ≠ 0) :
    queue.apply .consume =
      (.consumed (some queue.events.count), { queue with events := {} }) := by
  rw [apply, consume?, EventCounter.consume?, if_neg h]

/-- What was there and what comes in is what goes out and what stays, in this order. -/
theorem items_apply (queue : Queue α) (operation : Operation α) :
    (queue.apply operation).1.item?.toList ++ (queue.apply operation).2.items =
      queue.items ++ operation.item?.toList := by
  match operation with
  | .push item => rfl
  | .pop =>
    match hitems : queue.items with
    | [] =>
      rw [apply_pop_of_nil hitems, hitems]
      rfl
    | item :: items =>
      rw [apply_pop_of_cons hitems]
      exact (List.append_nil _).symm
  | .consume =>
    by_cases hcount : queue.events.count = 0
    · rw [apply_consume_of_zero hcount]
      exact (List.append_nil _).symm
    · rw [apply_consume_of_ne_zero hcount]
      exact (List.append_nil _).symm
  | .signal => exact (List.append_nil _).symm

/-- Reading the events takes all of them, and everything else leaves them. -/
theorem count_apply (queue : Queue α) (operation : Operation α) :
    (queue.apply operation).2.events.count =
      if (queue.apply operation).1.isRead then 0
      else queue.events.count + if operation.announces then 1 else 0 := by
  match operation with
  | .push item => rfl
  | .pop =>
    match hitems : queue.items with
    | [] =>
      rw [apply_pop_of_nil hitems]
      rfl
    | item :: items =>
      rw [apply_pop_of_cons hitems]
      rfl
  | .consume =>
    by_cases hcount : queue.events.count = 0
    · rw [apply_consume_of_zero hcount]
      rfl
    · rw [apply_consume_of_ne_zero hcount]
      rfl
  | .signal => rfl

/-! ## Histories -/

/-- The items that were added are those that have been taken and those that are still there, and
the counter holds the events that have not been read. -/
structure Accounts (queue : Queue α) (operations : List (Operation α))
    (history : List (Operation α × Outcome α)) : Prop where
  inOrder : taken history ++ queue.items = pushed operations
  counted : queue.events.count = unread history

theorem Accounts.apply {queue : Queue α} {operations : List (Operation α)}
    {history : List (Operation α × Outcome α)} (h : queue.Accounts operations history)
    (operation : Operation α) :
    (queue.apply operation).2.Accounts (operations ++ [operation])
      (history ++ [(operation, (queue.apply operation).1)]) where
  inOrder := by
    rw [taken_concat, pushed_concat, List.append_assoc, items_apply, ← List.append_assoc,
      h.inOrder]
  counted := by
    rw [unread_concat, count_apply, h.counted]

theorem accounts_after (operations : List (Operation α)) :
    (({} : Queue α).after operations).Accounts operations
      (({} : Queue α).history operations) := by
  induction operations using List.reverseRecOn with
  | nil => exact ⟨rfl, rfl⟩
  | append_singleton operations operation ih =>
    rw [after_concat, history_concat]
    exact ih.apply operation

/-- The next item to take is the first of those added that has not been taken yet. -/
theorem Accounts.apply_pop {queue : Queue α} {operations : List (Operation α)}
    {history : List (Operation α × Outcome α)} (h : queue.Accounts operations history) :
    (queue.apply .pop).1 = .popped (pushed operations)[(taken history).length]? := by
  rw [← h.inOrder, List.getElem?_append_right (Nat.le_refl _), Nat.sub_self]
  match hitems : queue.items with
  | [] => rw [apply_pop_of_nil hitems, List.getElem?_nil]
  | item :: items => rw [apply_pop_of_cons hitems, List.getElem?_cons_zero]

/-- Reading gives the number of events that have not been read, unless there is none, and leaves the
items. -/
theorem Accounts.apply_consume {queue : Queue α} {operations : List (Operation α)}
    {history : List (Operation α × Outcome α)} (h : queue.Accounts operations history) :
    (queue.apply .consume).1 =
        .consumed (if unread history = 0 then none else some (unread history)) ∧
      (queue.apply .consume).2.items = queue.items := by
  by_cases hcount : queue.events.count = 0
  · rw [apply_consume_of_zero hcount, ← h.counted, if_pos hcount]
    exact ⟨rfl, rfl⟩
  · rw [apply_consume_of_ne_zero hcount, ← h.counted, if_neg hcount]
    exact ⟨rfl, rfl⟩

/-- Whatever operations a queue has seen, the items that have been taken and those that are still
there are the items added, in order.  Taking an item gives the first one that has not been taken
yet; it fails exactly when as many have been taken as were added, and then changes nothing, so that
a consumer may try again until it gets one.  The counter holds the events that have been added since
events were read last, whether with an item or without.  Reading gives their number and fails
exactly when there is none, and it leaves the items. -/
theorem takes_in_order_and_counts (operations : List (Operation α)) :
    let queue := ({} : Queue α).after operations
    let history := ({} : Queue α).history operations
    taken history ++ queue.items = pushed operations ∧
      (queue.apply .pop).1 = .popped (pushed operations)[(taken history).length]? ∧
      ((queue.apply .pop).1 = .popped none ↔
        (taken history).length = (pushed operations).length) ∧
      ((queue.apply .pop).1 = .popped none → (queue.apply .pop).2 = queue) ∧
      queue.events.count = unread history ∧
      (queue.apply .consume).1 =
        .consumed (if unread history = 0 then none else some (unread history)) ∧
      (queue.apply .consume).2.items = queue.items := by
  intro queue history
  have haccounts : queue.Accounts operations history := accounts_after operations
  have hlength := congrArg List.length haccounts.inOrder
  rw [List.length_append] at hlength
  refine ⟨haccounts.inOrder, haccounts.apply_pop, ?_, ?_, haccounts.counted,
    haccounts.apply_consume⟩
  · rw [haccounts.apply_pop, Outcome.popped.injEq, List.getElem?_eq_none_iff]
    omega
  · intro hnone
    have hitems : queue.items = [] := by
      rw [haccounts.apply_pop, Outcome.popped.injEq, List.getElem?_eq_none_iff] at hnone
      exact List.eq_nil_of_length_eq_zero (by omega)
    rw [apply_pop_of_nil hitems]

/-- Two items are added and announced, one more event is added, and both items are taken, one before
and one after the events are read. -/
def pairOperations : List (Operation Nat) :=
  [.push 1, .push 2, .pop, .signal, .consume, .pop]

theorem takes_in_order_and_counts_pairOperations :
    let queue := ({} : Queue Nat).after pairOperations
    let history := ({} : Queue Nat).history pairOperations
    taken history = [1, 2] ∧ unread history = 0 ∧
      (queue.apply .pop).1 = .popped none ∧ (queue.apply .pop).2 = queue := by
  intro queue history
  obtain ⟨-, -, hnone, hsame, -⟩ := takes_in_order_and_counts pairOperations
  have hempty : (queue.apply .pop).1 = .popped none := hnone.mpr rfl
  exact ⟨rfl, rfl, hempty, hsame hempty⟩

end Queue
end DnsResolver
