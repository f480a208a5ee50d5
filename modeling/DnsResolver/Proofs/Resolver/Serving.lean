import Mathlib.Data.List.Induction
import DnsResolver.Proofs.Resolver.Noting
import DnsResolver.Proofs.Resolver.Replies

/-!
# Serving clients

Messages come in and replies are collected while the worker serves.  However these turns
interleave, the replies that have left the worker are those that handling the messages one after
another gives: one to each message that can be answered, in the order in which the messages came in.
The messages that get no reply might as well not have come.
-/

namespace DnsResolver

namespace Queue

variable {α : Type}

/-- Pushes an item, if there is one. -/
def offer (queue : Queue α) : Option α → Queue α
  | none => queue
  | some item => queue.push item

theorem items_offer (queue : Queue α) (item? : Option α) :
    (queue.offer item?).items = queue.items ++ item?.toList := by
  cases item? with
  | none => exact (List.append_nil _).symm
  | some item => exact items_push queue item

end Queue

namespace Resolver

variable {σ : Type}

/-! ## One message -/

/-- A message of these octets gets a reply. -/
def Answerable (octets : Octets) : Prop :=
  2 ≤ octets.length ∧ ¬MarkedResponse octets

instance : DecidablePred Answerable :=
  fun _ => inferInstanceAs (Decidable (_ ∧ _))

/-- The reply in an answer, if it has one. -/
def Answer.reply? : Answer → Option Message
  | .handled (.ok reply) => reply
  | _ => none

/-- What a message is answered.  A reply differs from the message in its octets alone, and these
begin with the identifier of the message. -/
inductive Answered (message : Message) : Answer → Prop where
  | reply {octets : Octets} :
      Answerable message.data → octets.take 2 = message.data.take 2 →
      Answered message (.handled (.ok (some { message with data := octets })))
  | noReply {answer : Answer} :
      ¬Answerable message.data → answer.reply? = none → Answered message answer

theorem handle_cases_of_not_answerable (resolver : Resolver σ) {message : Message}
    (h : ¬Answerable message.data) :
    resolver.handle message = (do note (.unsolicited message.peer); return .ok none) ∨
      resolver.handle message = (return .error (.tooShort message.data.length)) := by
  by_cases hmark : MarkedResponse message.data
  · exact .inl (handle_of_response (MessageKind.of?_eq_response_iff.mpr hmark))
  · have hlength : message.data.length < 2 :=
      Nat.lt_of_not_le fun hlength => h ⟨hlength, hmark⟩
    exact .inr (handle_of_length_lt hmark hlength)

theorem handle_of_not_answerable (resolver : Resolver σ) {message : Message}
    (h : ¬Answerable message.data) (state : State σ) :
    (Answer.handled (resolver.handle message state).1).reply? = none ∧
      SameButTrace state (resolver.handle message state).2 := by
  rcases handle_cases_of_not_answerable resolver h with hhandle | hhandle
  · rw [hhandle]
    exact ⟨rfl, sameButTrace_note (.unsolicited message.peer) state⟩
  · rw [hhandle]
    exact ⟨rfl, .refl state⟩

/-- Every message is answered as it should be, whatever state the resolver is in. -/
theorem handle_answered (resolver : Resolver σ) (message : Message) (state : State σ) :
    Answered message (.handled (resolver.handle message state).1) := by
  by_cases h : Answerable message.data
  · have hkind := mt MessageKind.of?_eq_response_iff.mp h.2
    cases hread : Packet.ofOctets message.data with
    | error error =>
      cases hid : messageId? message.data with
      | none => exact absurd (messageId?_eq_none_iff.mp hid) (Nat.not_lt.mpr h.1)
      | some id =>
        rw [handle_of_malformed hkind hread hid]
        exact .reply h ((Packet.take_wire _).trans (take_of_messageId?_eq_some hid).symm)
    | ok request =>
      have hid := Packet.take_of_ofOctets_eq_ok hread
      cases hquestions : request.questions with
      | nil =>
        rw [handle_of_noQuestion hkind hread hquestions]
        exact .reply h ((Packet.take_wire _).trans hid.symm)
      | cons question others =>
        rw [handle_of_question hkind hread hquestions]
        exact .reply h ((Packet.take_wire _).trans hid.symm)
  · exact .noReply h (handle_of_not_answerable resolver h state).1

/-- The worker passes on the reply of handling a message, and notes no more than that it dropped
the message. -/
theorem serveMessage_handle (resolver : Resolver σ) (message : Message) (state : State σ) :
    (resolver.serveMessage message state).1 =
        (Answer.handled (resolver.handle message state).1).reply? ∧
      SameButTrace (resolver.handle message state).2 (resolver.serveMessage message state).2 := by
  rw [serveMessage, bind_apply]
  cases (resolver.handle message state).1 with
  | ok reply => exact ⟨rfl, .refl _⟩
  | error error => exact ⟨rfl, sameButTrace_note (.dropped message.peer error) _⟩

/-- All that serving a message without a reply does is to note that, be it a response or too
short. -/
theorem serveMessage_of_not_answerable (resolver : Resolver σ) {message : Message}
    (h : ¬Answerable message.data) (state : State σ) :
    ∃ event : Event, event.Quiet ∧
      resolver.serveMessage message state =
        (none, { state with trace := state.trace ++ [event] }) := by
  rw [serveMessage]
  rcases handle_cases_of_not_answerable resolver h with hhandle | hhandle
  · rw [hhandle]
    exact ⟨.unsolicited message.peer, ⟨rfl, rfl⟩, rfl⟩
  · rw [hhandle]
    exact ⟨.dropped message.peer (.tooShort message.data.length), ⟨rfl, rfl⟩, rfl⟩

/-! ## One message after another -/

/-- Handles messages in order, each in the state that the one before it left. -/
def handleAll (resolver : Resolver σ) (messages : List Message) : Action σ (List Answer) :=
  resolver.run (messages.map .handle)

theorem handleAll_cons (resolver : Resolver σ) (message : Message) (messages : List Message)
    (state : State σ) :
    resolver.handleAll (message :: messages) state =
      (.handled (resolver.handle message state).1 ::
          (resolver.handleAll messages (resolver.handle message state).2).1,
        (resolver.handleAll messages (resolver.handle message state).2).2) :=
  rfl

theorem handleAll_concat (resolver : Resolver σ) (messages : List Message) (message : Message)
    (state : State σ) :
    resolver.handleAll (messages ++ [message]) state =
      ((resolver.handleAll messages state).1 ++
          [.handled (resolver.handle message (resolver.handleAll messages state).2).1],
        (resolver.handle message (resolver.handleAll messages state).2).2) := by
  induction messages generalizing state with
  | nil => rfl
  | cons first messages ih =>
    rw [List.cons_append, handleAll_cons, ih]
    rfl

theorem handleAll_answered (resolver : Resolver σ) (messages : List Message) (state : State σ) :
    List.Forall₂ Answered messages (resolver.handleAll messages state).1 := by
  induction messages generalizing state with
  | nil => exact .nil
  | cons message messages ih =>
    rw [handleAll_cons]
    exact .cons (handle_answered resolver message state) (ih _)

/-- The messages that can be answered. -/
def answerable (messages : List Message) : List Message :=
  messages.filter fun message => Answerable message.data

/-- The messages without a reply make no difference to the others. -/
theorem handleAll_answerable (resolver : Resolver σ) (messages : List Message) {s t : State σ}
    (h : SameButTrace s t) :
    (resolver.handleAll (answerable messages) s).1.filterMap Answer.reply? =
        (resolver.handleAll messages t).1.filterMap Answer.reply? ∧
      SameButTrace (resolver.handleAll (answerable messages) s).2
        (resolver.handleAll messages t).2 := by
  induction messages generalizing s t with
  | nil => exact ⟨rfl, h⟩
  | cons message messages ih =>
    rw [handleAll_cons]
    by_cases hanswerable : Answerable message.data
    · have hkeep : answerable (message :: messages) = message :: answerable messages :=
        List.filter_cons_of_pos (decide_eq_true hanswerable)
      obtain ⟨hresult, hstate⟩ := handle_traceBlind resolver message s t h
      obtain ⟨hreplies, hlast⟩ := ih hstate
      rw [hkeep, handleAll_cons, hresult]
      exact ⟨by rw [List.filterMap_cons, List.filterMap_cons, hreplies], hlast⟩
    · have hskip : answerable (message :: messages) = answerable messages :=
        List.filter_cons_of_neg (by simpa using hanswerable)
      obtain ⟨hnone, hstate⟩ := handle_of_not_answerable resolver hanswerable t
      obtain ⟨hreplies, hlast⟩ := ih (h.trans hstate)
      rw [hskip, List.filterMap_cons_none hnone]
      exact ⟨hreplies, hlast⟩

/-- Handling the messages in order gives the replies and leaves the state, up to the trace. -/
structure Handles (resolver : Resolver σ) (start : State σ) (messages replies : List Message)
    (state : State σ) : Prop where
  replies_eq : replies = (resolver.handleAll messages start).1.filterMap Answer.reply?
  answered : List.Forall₂ Answered messages (resolver.handleAll messages start).1
  same : SameButTrace (resolver.handleAll messages start).2 state

/-- The replies and the state are those of handling the messages in order, be it with the messages
that get no reply or without them. -/
structure AccountsFor (resolver : Resolver σ) (start : State σ) (messages replies : List Message)
    (state : State σ) : Prop where
  all : Handles resolver start messages replies state
  answerable : Handles resolver start (answerable messages) replies state

section Handles

variable {resolver : Resolver σ} {start state : State σ} {messages replies collected : List Message}

theorem handles_nil (resolver : Resolver σ) (start : State σ) :
    Handles resolver start [] [] start :=
  ⟨rfl, .nil, .refl start⟩

theorem Handles.accountsFor (h : Handles resolver start messages replies state) :
    AccountsFor resolver start messages replies state := by
  obtain ⟨hreplies, hstate⟩ := handleAll_answerable resolver messages (.refl start)
  refine ⟨h, ?_, handleAll_answered resolver _ start, hstate.trans h.same⟩
  rw [h.replies_eq, hreplies]

/-- Serving one more message adds its reply, if it gets one. -/
theorem Handles.serveMessage (h : Handles resolver start messages replies state)
    (message : Message) :
    Handles resolver start (messages ++ [message])
      (replies ++ (resolver.serveMessage message state).1.toList)
      (resolver.serveMessage message state).2 := by
  obtain ⟨hreply, hserved⟩ := serveMessage_handle resolver message state
  -- What the worker notes is in the trace, which handling does not read.
  obtain ⟨hresult, hhandled⟩ := handle_traceBlind resolver message _ state h.same
  refine ⟨?_, handleAll_answered resolver _ start, ?_⟩
  · rw [handleAll_concat, List.filterMap_append, ← h.replies_eq, hresult, hreply]
    rfl
  · rw [handleAll_concat]
    exact hhandled.trans hserved

theorem Handles.serveMessage_offer {outbound : Queue Message}
    (h : Handles resolver start messages (collected ++ outbound.items) state)
    (message : Message) :
    Handles resolver start (messages ++ [message])
      (collected ++ (outbound.offer (resolver.serveMessage message state).1).items)
      (resolver.serveMessage message state).2 := by
  rw [Queue.items_offer, ← List.append_assoc]
  exact h.serveMessage message

end Handles

/-! ## Serving until no message is left -/

theorem serve_of_pop?_eq_none {resolver : Resolver σ} {inbound : Queue Message}
    (h : inbound.pop? = none) (outbound : Queue Message) :
    resolver.serve inbound outbound = (return (inbound, outbound)) := by
  rw [serve]
  split
  next => rfl
  next hsome =>
    rw [h] at hsome
    cases hsome

theorem serve_of_pop?_eq_some {resolver : Resolver σ} {inbound rest : Queue Message}
    {message : Message} (h : inbound.pop? = some (message, rest)) (outbound : Queue Message) :
    resolver.serve inbound outbound = (do
      let reply? ← resolver.serveMessage message
      resolver.serve rest (outbound.offer reply?)) := by
  rw [serve]
  split
  next hnone =>
    rw [h] at hnone
    cases hnone
  next hsome =>
    rw [h] at hsome
    cases hsome
    congr 1
    funext reply?
    cases reply? with
    | none => rfl
    | some reply => rfl

/-- Serving on takes every message that has come in. -/
theorem Handles.serve {resolver : Resolver σ} {start state : State σ}
    {messages collected : List Message} (inbound : Queue Message) {outbound : Queue Message}
    (h : Handles resolver start messages (collected ++ outbound.items) state) :
    ∃ inbound' outbound' state',
      resolver.serve inbound outbound state = ((inbound', outbound'), state') ∧
        inbound'.items = [] ∧
        Handles resolver start (messages ++ inbound.items) (collected ++ outbound'.items)
          state' := by
  cases hpop : inbound.pop? with
  | none =>
    have hempty := Queue.pop?_eq_none_iff.mp hpop
    refine ⟨inbound, outbound, state, ?_, hempty, ?_⟩
    · rw [serve_of_pop?_eq_none hpop]
      rfl
    · rw [hempty, List.append_nil]
      exact h
  | some taken =>
    obtain ⟨message, rest⟩ := taken
    have hshorter := Queue.size_of_pop? hpop
    obtain ⟨inbound', outbound', state', hserve, hempty, hhandles⟩ :=
      Handles.serve rest (h.serveMessage_offer message)
    refine ⟨inbound', outbound', state', ?_, hempty, ?_⟩
    · rw [serve_of_pop?_eq_some hpop, bind_apply, hserve]
    · rw [Queue.items_of_pop?_eq_some hpop, List.append_cons]
      exact hhandles
termination_by inbound.size

/-! ## Turns -/

/-- What may happen next around the worker. -/
inductive Turn where
  /-- A message comes in. -/
  | arrive (message : Message)
  /-- The worker takes a message. -/
  | take
  /-- The worker is done with the message it has taken. -/
  | finish
  /-- A reply is collected. -/
  | collect
  /-- The events that announce replies are read. -/
  | consume

/-- The message that comes in with a turn, if one does. -/
def Turn.arrival? : Turn → Option Message
  | arrive message => some message
  | take | finish | collect | consume => none

/-- The messages that come in, in order. -/
def arrivals (turns : List Turn) : List Message :=
  turns.filterMap Turn.arrival?

/-- The worker between its queues, with the message it has taken and the replies that have been
collected. -/
structure Service (σ : Type) where
  inbound : Queue Message := {}
  taken : Option Message := none
  outbound : Queue Message := {}
  collected : List Message := []
  state : State σ

namespace Service

/-- The messages that the worker is not done with, in order. -/
def waiting (service : Service σ) : List Message :=
  service.taken.toList ++ service.inbound.items

/-- The replies that have left the worker, in order. -/
def replies (service : Service σ) : List Message :=
  service.collected ++ service.outbound.items

/-- A message comes in. -/
def arrive (service : Service σ) (message : Message) : Service σ :=
  { service with inbound := service.inbound.push message }

/-- The worker takes a message, once it is free and there is one. -/
def take (service : Service σ) : Service σ :=
  match service.taken, service.inbound.pop? with
  | none, some (message, inbound) => { service with inbound, taken := some message }
  | _, _ => service

/-- The worker is done with the message it has taken. -/
def finish (resolver : Resolver σ) (service : Service σ) : Service σ :=
  match service.taken with
  | none => service
  | some message =>
    { service with
      taken := none
      outbound := service.outbound.offer (resolver.serveMessage message service.state).1
      state := (resolver.serveMessage message service.state).2 }

/-- A reply is collected, if there is one. -/
def collect (service : Service σ) : Service σ :=
  match service.outbound.pop? with
  | none => service
  | some (reply, outbound) =>
    { service with outbound, collected := service.collected ++ [reply] }

/-- The events that announce replies are read, if there are any. -/
def consume (service : Service σ) : Service σ :=
  match service.outbound.consume? with
  | none => service
  | some (_, outbound) => { service with outbound }

/-- Takes one turn. -/
def step (resolver : Resolver σ) (service : Service σ) : Turn → Service σ
  | .arrive message => service.arrive message
  | .take => service.take
  | .finish => service.finish resolver
  | .collect => service.collect
  | .consume => service.consume

/-- What the service has become after some turns, from empty queues. -/
def after (resolver : Resolver σ) (start : State σ) (turns : List Turn) : Service σ :=
  turns.foldl (step resolver) { state := start }

/-- Of the messages that came in, some have been handled in order, and the others wait in the order
in which they came. -/
def InOrder (resolver : Resolver σ) (start : State σ) (arrived : List Message)
    (service : Service σ) : Prop :=
  ∃ handled, arrived = handled ++ service.waiting ∧
    Handles resolver start handled service.replies service.state

section InOrder

variable {resolver : Resolver σ} {start : State σ} {arrived : List Message} {service : Service σ}

theorem InOrder.arrive (h : service.InOrder resolver start arrived) (message : Message) :
    (service.arrive message).InOrder resolver start (arrived ++ [message]) := by
  obtain ⟨handled, harrived, hhandles⟩ := h
  refine ⟨handled, ?_, hhandles⟩
  rw [harrived, waiting, waiting, Service.arrive, Queue.items_push, List.append_assoc,
    List.append_assoc]

theorem InOrder.take (h : service.InOrder resolver start arrived) :
    service.take.InOrder resolver start arrived := by
  obtain ⟨handled, harrived, hhandles⟩ := h
  unfold Service.take
  split
  next message inbound htaken hpop =>
    refine ⟨handled, ?_, hhandles⟩
    rw [harrived, waiting, htaken, Queue.items_of_pop?_eq_some hpop]
    rfl
  next => exact ⟨handled, harrived, hhandles⟩

theorem InOrder.finish (h : service.InOrder resolver start arrived) :
    (service.finish resolver).InOrder resolver start arrived := by
  obtain ⟨handled, harrived, hhandles⟩ := h
  unfold Service.finish
  split
  next => exact ⟨handled, harrived, hhandles⟩
  next message htaken =>
    refine ⟨handled ++ [message], ?_, hhandles.serveMessage_offer message⟩
    rw [harrived, waiting, htaken, List.append_assoc]
    rfl

theorem InOrder.collect (h : service.InOrder resolver start arrived) :
    service.collect.InOrder resolver start arrived := by
  obtain ⟨handled, harrived, hhandles⟩ := h
  unfold Service.collect
  split
  next => exact ⟨handled, harrived, hhandles⟩
  next reply outbound hpop =>
    refine ⟨handled, harrived, ?_⟩
    rw [replies, Queue.items_of_pop?_eq_some hpop, List.append_cons] at hhandles
    exact hhandles

theorem InOrder.consume (h : service.InOrder resolver start arrived) :
    service.consume.InOrder resolver start arrived := by
  obtain ⟨handled, harrived, hhandles⟩ := h
  unfold Service.consume
  split
  next => exact ⟨handled, harrived, hhandles⟩
  next count outbound hconsume =>
    refine ⟨handled, harrived, ?_⟩
    rw [replies, ← Queue.items_of_consume?_eq_some hconsume] at hhandles
    exact hhandles

theorem InOrder.step (h : service.InOrder resolver start arrived) (turn : Turn) :
    (service.step resolver turn).InOrder resolver start (arrived ++ turn.arrival?.toList) := by
  have hnothing : arrived ++ (none : Option Message).toList = arrived := List.append_nil arrived
  cases turn with
  | arrive message => exact h.arrive message
  | take =>
    rw [Turn.arrival?, hnothing]
    exact h.take
  | finish =>
    rw [Turn.arrival?, hnothing]
    exact h.finish
  | collect =>
    rw [Turn.arrival?, hnothing]
    exact h.collect
  | consume =>
    rw [Turn.arrival?, hnothing]
    exact h.consume

end InOrder

theorem inOrder_after (resolver : Resolver σ) (start : State σ) (turns : List Turn) :
    (after resolver start turns).InOrder resolver start (arrivals turns) := by
  induction turns using List.reverseRecOn with
  | nil => exact ⟨[], rfl, handles_nil resolver start⟩
  | append_singleton turns turn ih =>
    have hafter : after resolver start (turns ++ [turn]) =
        (after resolver start turns).step resolver turn :=
      List.foldl_concat _ _ turn turns
    have harrivals : arrivals (turns ++ [turn]) = arrivals turns ++ turn.arrival?.toList :=
      List.filterMap_append
    rw [hafter, harrivals]
    exact ih.step turn

theorem waiting_finish (resolver : Resolver σ) (service : Service σ) :
    (service.finish resolver).waiting = (service.finish resolver).inbound.items := by
  have htaken : (service.finish resolver).taken = none := by
    unfold finish
    split
    next htaken => exact htaken
    next => rfl
  rw [waiting, htaken, Option.toList_none, List.nil_append]

/-- What has become of the messages that came in. -/
structure ServesInOrder (resolver : Resolver σ) (start : State σ) (arrived : List Message)
    (service : Service σ) : Prop where
  /-- The replies so far are those to the messages that have been handled, and the others wait. -/
  soFar : ∃ handled, arrived = handled ++ service.waiting ∧
    AccountsFor resolver start handled service.replies service.state
  /-- If no more come in, the worker serves until none waits, and the replies are those to all. -/
  inTheEnd : ∃ inbound outbound state,
    resolver.serve (service.finish resolver).inbound (service.finish resolver).outbound
        (service.finish resolver).state = ((inbound, outbound), state) ∧
      inbound.items = [] ∧
      AccountsFor resolver start arrived
        ((service.finish resolver).collected ++ outbound.items) state

theorem InOrder.servesInOrder {resolver : Resolver σ} {start : State σ} {arrived : List Message}
    {service : Service σ} (h : service.InOrder resolver start arrived) :
    service.ServesInOrder resolver start arrived where
  soFar := by
    obtain ⟨handled, harrived, hhandles⟩ := h
    exact ⟨handled, harrived, hhandles.accountsFor⟩
  inTheEnd := by
    obtain ⟨handled, harrived, hhandles⟩ := h.finish
    obtain ⟨inbound, outbound, state, hserve, hempty, hall⟩ :=
      hhandles.serve (service.finish resolver).inbound
    rw [harrived, waiting_finish]
    exact ⟨inbound, outbound, state, hserve, hempty, hall.accountsFor⟩

end Service

/-- Whatever turns a service takes, from any state and over any network, its replies are those of
handling the messages in the order in which they came in.  A message that cannot be answered changes
nothing but that one event more is noted, which is neither an exchange nor a use of the cache. -/
theorem serves_in_order (resolver : Resolver σ) (start : State σ) (turns : List Turn) :
    (Service.after resolver start turns).ServesInOrder resolver start (arrivals turns) ∧
      ∀ (message : Message) (state : State σ), ¬Answerable message.data →
        ∃ event : Event, event.Quiet ∧
          resolver.serveMessage message state =
            (none, { state with trace := state.trace ++ [event] }) := by
  refine ⟨(Service.inOrder_after resolver start turns).servesInOrder, ?_⟩
  intro message state h
  exact serveMessage_of_not_answerable resolver h state

/-- A message that is too short to hold an identifier. -/
def shortMessage : Message :=
  { hostMessage with data := [255] }

/-- A message that is marked as a response. -/
def markedMessage : Message :=
  { hostMessage with data := [0, 9, 0x80] }

/-- A question comes in behind two messages that get no reply, while the worker is at work. -/
def hostTurns : List Turn :=
  [.arrive shortMessage, .take, .arrive markedMessage, .finish, .take, .arrive hostMessage, .finish,
    .take, .finish]

theorem serves_in_order_hostTurns :
    (∃ octets, (Service.after hostResolver (hostResolver.initial ()) hostTurns).replies =
        [{ hostMessage with data := octets }] ∧ octets.take 2 = [0, 7]) ∧
      ∃ event : Event, event.Quiet ∧
        hostResolver.serveMessage shortMessage (hostResolver.initial ()) =
          (none, { hostResolver.initial () with trace := [event] }) := by
  obtain ⟨hserves, hdropped⟩ :=
    serves_in_order hostResolver (hostResolver.initial ()) hostTurns
  refine ⟨?_, hdropped shortMessage (hostResolver.initial ()) (by decide)⟩
  obtain ⟨handled, harrivals, haccounts⟩ := hserves.soFar
  have hwaiting :
      (Service.after hostResolver (hostResolver.initial ()) hostTurns).waiting = [] := rfl
  rw [hwaiting, List.append_nil] at harrivals
  have hanswerable : answerable handled = [hostMessage] := by
    rw [← harrivals]
    decide
  obtain ⟨hreplies, hanswered, -⟩ := haccounts.answerable
  rw [hanswerable] at hreplies hanswered
  rw [hreplies]
  obtain ⟨answer, others, hanswer, hothers, hanswers⟩ := List.forall₂_cons_left_iff.mp hanswered
  rw [List.forall₂_nil_left_iff.mp hothers] at hanswers
  rw [hanswers]
  cases hanswer with
  | @reply octets _ hid => exact ⟨octets, rfl, hid⟩
  | noReply hnot => exact absurd (by decide) hnot

end Resolver
end DnsResolver
