import Mathlib.Logic.Function.Basic
import DnsResolver.Queue

/-!
# Waking the consumer of a queue

Any number of producers push items, each in two steps: it adds an item and then announces it.  One
consumer waits until something is announced, reads the events, takes items until there is none, and
waits again.  However these steps interleave, no item lies behind the back of a waiting consumer:
it has been announced, or its producer, or a later one, is just about to announce.  The count of the
events has no greatest value here, as if it never ran full.
-/

namespace DnsResolver
namespace Queue

variable {ι α : Type}

/-- What the consumer of a queue is doing. -/
inductive Phase where
  /-- It waits for an event. -/
  | waiting
  /-- It has been woken, and has not read the events yet. -/
  | woken
  /-- It takes items until there is none. -/
  | draining
  deriving DecidableEq, Repr

/-- A queue between producers and one consumer. -/
structure Relay (ι α : Type) where
  queue : Queue α := {}
  /-- The producers that have added an item and have not announced it yet. -/
  announcing : ι → Bool := fun _ => false
  phase : Phase := .waiting
  /-- The items that the consumer has taken, in order. -/
  taken : List α := []

/-- A step of a producer or of the consumer. -/
inductive Move (ι α : Type) where
  /-- A producer adds an item. -/
  | add (producer : ι) (item : α)
  /-- A producer announces the item that it has added. -/
  | announce (producer : ι)
  /-- The consumer is woken, be it by an event or for nothing. -/
  | wake
  /-- The consumer reads the events. -/
  | consume
  /-- The consumer takes an item, or finds that there is none. -/
  | take
  deriving DecidableEq, Repr

/-- The item that a move adds, if it adds one. -/
def Move.item? : Move ι α → Option α
  | add _ item => some item
  | announce _ | wake | consume | take => none

/-- The items that some moves add, in order. -/
def addedItems (moves : List (Move ι α)) : List α :=
  moves.filterMap Move.item?

section Run

variable [DecidableEq ι]

/-- What a move makes of a relay.  A producer adds nothing before it has announced what it added
last, and a consumer that was woken for nothing waits again. -/
inductive Step : Relay ι α → Move ι α → Relay ι α → Prop where
  | add {relay : Relay ι α} {producer : ι} (item : α) :
      relay.announcing producer = false →
      Step relay (.add producer item)
        { relay with
          queue := relay.queue.append item
          announcing := Function.update relay.announcing producer true }
  | announce {relay : Relay ι α} {producer : ι} :
      relay.announcing producer = true →
      Step relay (.announce producer)
        { relay with
          queue := relay.queue.signal
          announcing := Function.update relay.announcing producer false }
  | wake {relay : Relay ι α} :
      relay.phase = .waiting → Step relay .wake { relay with phase := .woken }
  | consumed {relay : Relay ι α} {count : Nat} {queue : Queue α} :
      relay.phase = .woken → relay.queue.consume? = some (count, queue) →
      Step relay .consume { relay with queue, phase := .draining }
  | startled {relay : Relay ι α} :
      relay.phase = .woken → relay.queue.consume? = none →
      Step relay .consume { relay with phase := .waiting }
  | taken {relay : Relay ι α} {item : α} {queue : Queue α} :
      relay.phase = .draining → relay.queue.pop? = some (item, queue) →
      Step relay .take { relay with queue, taken := relay.taken ++ [item] }
  | drained {relay : Relay ι α} :
      relay.phase = .draining → relay.queue.pop? = none →
      Step relay .take { relay with phase := .waiting }

/-- What has become of an empty queue and a waiting consumer after some moves. -/
inductive Run : List (Move ι α) → Relay ι α → Prop where
  | start : Run [] {}
  | step {moves : List (Move ι α)} {move : Move ι α} {relay next : Relay ι α} :
      Run moves relay → Step relay move next → Run (moves ++ [move]) next

end Run

namespace Relay

/-- An event has been announced, or a producer is about to announce one. -/
def Announced (relay : Relay ι α) : Prop :=
  0 < relay.queue.events.count ∨ ∃ producer, relay.announcing producer = true

/-- All items added are taken or queued, in order, and unless the consumer is taking items anyway,
what is queued is announced. -/
structure Sound (relay : Relay ι α) (added : List α) : Prop where
  inOrder : relay.taken ++ relay.queue.items = added
  announced : relay.phase ≠ .draining → relay.queue.items ≠ [] → relay.Announced

section Sound

variable {relay : Relay ι α} {added : List α}

theorem Sound.add [DecidableEq ι] (h : relay.Sound added) (producer : ι) (item : α) :
    Sound
      { relay with
        queue := relay.queue.append item
        announcing := Function.update relay.announcing producer true }
      (added ++ [item]) where
  inOrder := by
    change relay.taken ++ (relay.queue.items ++ [item]) = _
    rw [← List.append_assoc, h.inOrder]
  announced _ _ := .inr ⟨producer, Function.update_self producer true relay.announcing⟩

theorem Sound.announce [DecidableEq ι] (h : relay.Sound added) (producer : ι) :
    Sound
      { relay with
        queue := relay.queue.signal
        announcing := Function.update relay.announcing producer false }
      added where
  inOrder := h.inOrder
  announced _ _ := .inl (Nat.succ_pos relay.queue.events.count)

/-- A consumer that is not taking items may wake up or fall asleep again. -/
theorem Sound.setPhase (h : relay.Sound added) (hphase : relay.phase ≠ .draining) (phase : Phase) :
    Sound { relay with phase } added where
  inOrder := h.inOrder
  announced _ hitems := h.announced hphase hitems

/-- With the events that are read all announcements are gone, but then the consumer takes items. -/
theorem Sound.consumed (h : relay.Sound added) {count : Nat} {queue : Queue α}
    (hconsume : relay.queue.consume? = some (count, queue)) :
    Sound { relay with queue, phase := .draining } added where
  inOrder := by
    change relay.taken ++ queue.items = added
    rw [items_of_consume?_eq_some hconsume, h.inOrder]
  announced hphase _ := absurd rfl hphase

theorem Sound.taken (h : relay.Sound added) (hphase : relay.phase = .draining) {item : α}
    {queue : Queue α} (hpop : relay.queue.pop? = some (item, queue)) :
    Sound { relay with queue, taken := relay.taken ++ [item] } added where
  inOrder := by
    change relay.taken ++ [item] ++ queue.items = added
    rw [← List.append_cons, ← items_of_pop?_eq_some hpop, h.inOrder]
  announced hwaiting _ := absurd hphase hwaiting

/-- The consumer stops taking items only once there is none. -/
theorem Sound.drained (h : relay.Sound added) (hpop : relay.queue.pop? = none) :
    Sound { relay with phase := .waiting } added where
  inOrder := h.inOrder
  announced _ hitems := absurd (pop?_eq_none_iff.mp hpop) hitems

theorem Sound.step [DecidableEq ι] (h : relay.Sound added) {move : Move ι α} {next : Relay ι α}
    (hstep : Step relay move next) :
    next.Sound (added ++ move.item?.toList) := by
  have hnothing : added ++ (none : Option α).toList = added := List.append_nil added
  cases hstep with
  | add item _ => exact h.add _ item
  | announce _ =>
    rw [Move.item?, hnothing]
    exact h.announce _
  | wake hphase =>
    rw [Move.item?, hnothing]
    exact h.setPhase (by simp [hphase]) .woken
  | consumed _ hconsume =>
    rw [Move.item?, hnothing]
    exact h.consumed hconsume
  | startled hphase _ =>
    rw [Move.item?, hnothing]
    exact h.setPhase (by simp [hphase]) .waiting
  | taken hphase hpop =>
    rw [Move.item?, hnothing]
    exact h.taken hphase hpop
  | drained _ hpop =>
    rw [Move.item?, hnothing]
    exact h.drained hpop

end Sound

end Relay

variable [DecidableEq ι] {moves : List (Move ι α)} {relay : Relay ι α}

theorem Run.sound (h : Run moves relay) : relay.Sound (addedItems moves) := by
  induction h with
  | start => exact ⟨rfl, fun _ hitems => absurd rfl hitems⟩
  | @step moves move relay next _ hstep ih =>
    have hadded : addedItems (moves ++ [move]) = addedItems moves ++ move.item?.toList :=
      List.filterMap_append
    rw [hadded]
    exact ih.step hstep

/-- However producers and consumer take turns, whenever the consumer waits and an item is queued, an
event has been announced or a producer is about to announce one.  The items that were taken and
those that are queued are the items added, in order. -/
theorem Run.announced_of_waiting (h : Run moves relay) :
    (relay.phase = .waiting → relay.queue.items ≠ [] →
      0 < relay.queue.events.count ∨ ∃ producer, relay.announcing producer = true) ∧
      relay.taken ++ relay.queue.items = addedItems moves := by
  refine ⟨?_, h.sound.inOrder⟩
  intro hphase hitems
  exact h.sound.announced (by simp [hphase]) hitems

/-- Of two producers the second announces first, so that the consumer takes both items before the
first producer announces its own.  The late event wakes the consumer for nothing. -/
def lateMoves : List (Move Bool Nat) :=
  [.add false 1, .add true 2, .announce true, .wake, .consume, .take, .take, .take,
    .announce false, .add true 3]

theorem announced_of_waiting_lateMoves :
    ∃ relay, Run lateMoves relay ∧ relay.phase = .waiting ∧ relay.queue.items = [3] ∧
      (0 < relay.queue.events.count ∨ ∃ producer, relay.announcing producer = true) ∧
      relay.taken ++ relay.queue.items = [1, 2, 3] := by
  have hrun : Run lateMoves _ :=
    .step (.step (.step (.step (.step (.step (.step (.step (.step (.step .start
      (.add 1 rfl)) (.add 2 rfl)) (.announce rfl)) (.wake rfl)) (.consumed rfl rfl))
      (.taken rfl rfl)) (.taken rfl rfl)) (.drained rfl rfl)) (.announce rfl)) (.add 3 rfl)
  obtain ⟨hannounced, horder⟩ := hrun.announced_of_waiting
  exact ⟨_, hrun, rfl, rfl, hannounced rfl (List.cons_ne_nil 3 []), horder⟩

end Queue
end DnsResolver
