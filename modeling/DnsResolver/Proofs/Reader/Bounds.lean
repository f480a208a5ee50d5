import DnsResolver.Proofs.Reader.Decoding
import DnsResolver.Reader.Stack

/-!
# Readers stay in their message

Whatever is read, and whether or not it can be, a step moves the cursor to a place in the message and
changes nothing else of a reader.  A reader may be narrowed, but only to octets of its own window.
Hence all readers that ever come up for a message have their cursor and the end of their window in
it.
-/

namespace DnsResolver

/-! ## The walk along a name -/

namespace Reader

/-- Where a walk along a name ended. -/
def stopOf : Except (DecodeError × Nat) (List Octets × Nat) → Nat
  | .ok (_, next) => next
  | .error (_, next) => next

/-- A walk along a name ends in the message, well or badly. -/
theorem stopOf_nameLabels_le {reader : Reader} {pointers position limit : Nat}
    (hposition : position ≤ reader.buffer.size) (hlimit : limit ≤ reader.buffer.size) :
    stopOf (reader.nameLabels pointers position limit) ≤ reader.buffer.size := by
  fun_induction Reader.nameLabels reader pointers position limit
  case case3 hstop _ _ _ _ hrest ih =>
    rw [hrest] at ih
    exact ih (Nat.le_trans hstop hlimit) hlimit
  case case4 hstop _ _ _ hrest ih =>
    rw [hrest] at ih
    exact ih (Nat.le_trans hstop hlimit) hlimit
  case case9 hoffset _ hrest ih =>
    rw [hrest] at ih
    exact ih (Nat.le_of_lt hoffset) (Nat.le_refl _)
  -- All other walks end near their start, at most behind a label or a pointer that is inside.
  all_goals
    dsimp only [stopOf]
    omega

end Reader

/-! ## Steps -/

namespace Decoder

variable {α β : Type} {message : Octets}

/-- The step moves the cursor within the message, and changes nothing else of the reader. -/
def StaysInside (message : Octets) (step : Decoder α) : Prop :=
  ∀ position limit, position ≤ message.length → limit ≤ message.length →
    ∃ next, next ≤ message.length ∧
      ((∃ a, step (.placed message position limit) = .ok a (.placed message next limit)) ∨
        ∃ error, step (.placed message position limit) = .error error (.placed message next limit))

theorem staysInside_pure (a : α) : StaysInside message (pure a) :=
  fun position _ hposition _ => ⟨position, hposition, .inl ⟨a, rfl⟩⟩

theorem StaysInside.bind {step : Decoder α} {next : α → Decoder β}
    (hstep : StaysInside message step) (hnext : ∀ a, StaysInside message (next a)) :
    StaysInside message (step >>= next) := by
  intro position limit hposition hlimit
  obtain ⟨between, hbetween, ⟨a, ha⟩ | ⟨error, herror⟩⟩ := hstep position limit hposition hlimit
  · rw [bind_of_ok ha]
    exact hnext a between limit hbetween hlimit
  · exact ⟨between, hbetween, .inr ⟨error, bind_of_error herror⟩⟩

theorem StaysInside.map {step : Decoder α} (hstep : StaysInside message step) (f : α → β) :
    StaysInside message (do return f (← step)) :=
  hstep.bind fun a => staysInside_pure (f a)

theorem staysInside_octets (count : Nat) : StaysInside message (octets count) := by
  intro position limit hposition hlimit
  by_cases hcount : count ≤ limit - position
  · exact ⟨position + count, by omega, .inl ⟨_, if_pos hcount⟩⟩
  · exact ⟨position, hposition, .inr ⟨_, if_neg hcount⟩⟩

theorem staysInside_octet : StaysInside message octet :=
  (staysInside_octets 1).map _

theorem staysInside_word16 : StaysInside message word16 :=
  (staysInside_octets 2).map _

theorem staysInside_word32 : StaysInside message word32 :=
  (staysInside_octets 4).map _

theorem staysInside_rest : StaysInside message rest :=
  fun position limit => staysInside_octets (limit - position) position limit

theorem staysInside_seek (place : Nat) : StaysInside message (seek place) := by
  intro position limit hposition _
  by_cases hplace : place ≤ message.length
  · exact ⟨place, hplace, .inl ⟨(), if_pos hplace⟩⟩
  · exact ⟨position, hposition, .inr ⟨_, if_neg hplace⟩⟩

/-- However a confined step runs, the cursor ends up behind its octets or stays in front of them. -/
theorem staysInside_within (count : Nat) (step : Decoder α) :
    StaysInside message (within count step) := by
  intro position limit hposition hlimit
  by_cases hcount : count ≤ limit - position
  · have hinside : position + count ≤ message.length := by omega
    rw [within_placed hcount hinside]
    cases step (.placed message position (position + count)) with
    | ok a inside => exact ⟨position + count, hinside, .inl ⟨a, rfl⟩⟩
    | error e inside => exact ⟨position, hposition, .inr ⟨e, rfl⟩⟩
  · exact ⟨position, hposition, .inr ⟨_, within_of_lt (Nat.lt_of_not_le hcount)⟩⟩

/-- The cursor ends up where the walk along the name does. -/
theorem nameText_placed (message : Octets) (position limit : Nat) :
    nameText (.placed message position limit) =
      match (Reader.placed message position limit).nameLabels maxPointers position limit with
      | .ok (labels, next) => .ok (Labels.join labels) (.placed message next limit)
      | .error (error, next) => .error error (.placed message next limit) :=
  rfl

theorem staysInside_nameText : StaysInside message nameText := by
  intro position limit hposition hlimit
  have hsize : (Reader.placed message position limit).buffer.size = message.length :=
    Reader.size_buffer_placed message position limit
  rw [← hsize] at hposition hlimit
  have hstop := @Reader.stopOf_nameLabels_le _ maxPointers _ _ hposition hlimit
  rw [hsize] at hstop
  refine ⟨_, hstop, ?_⟩
  rw [nameText_placed]
  cases (Reader.placed message position limit).nameLabels maxPointers position limit with
  | ok found => exact .inl ⟨_, rfl⟩
  | error fault => exact .inr ⟨_, rfl⟩

theorem staysInside_name : StaysInside message name := by
  refine staysInside_nameText.bind fun text => ?_
  cases Name.ofOctets text with
  | ok name => exact staysInside_pure name
  | error fault => exact fun position _ hposition _ => ⟨position, hposition, .inr ⟨_, rfl⟩⟩

theorem staysInside_question : StaysInside message question :=
  staysInside_name.bind fun _ => staysInside_word16.bind fun _ => staysInside_word16.map _

theorem staysInside_record : StaysInside message record := by
  refine staysInside_name.bind fun _ => staysInside_word16.bind fun type => ?_
  refine staysInside_word16.bind fun _ => staysInside_word32.bind fun _ => ?_
  exact staysInside_word16.bind fun length => (staysInside_within _ _).map _

theorem staysInside_header : StaysInside message header := by
  refine staysInside_word16.bind fun _ => staysInside_word16.bind fun _ => ?_
  refine staysInside_word16.bind fun _ => staysInside_word16.bind fun _ => ?_
  exact staysInside_word16.bind fun _ => staysInside_word16.map _

end Decoder

/-! ## Stacks of readers -/

/-- A reader of the message whose cursor and whose window lie in it. -/
def Reader.Inside (message : Octets) (reader : Reader) : Prop :=
  ∃ position limit, position ≤ message.length ∧ limit ≤ message.length ∧
    reader = .placed message position limit

namespace ReaderStack

variable {message : Octets} {stack : ReaderStack}

/-- The stacks of readers that come up for a message: at first one reader over all of it, and then
whatever is left behind by the steps, failed ones included. -/
inductive Reachable (message : Octets) : ReaderStack → Prop where
  | start : Reachable message (ofOctets message)
  | step {stack : ReaderStack} (step : Step) :
      Reachable message stack → Reachable message (stack.apply step).2

theorem inside_decode {α : Type} {decoder : Decoder α} (hdecoder : decoder.StaysInside message)
    (h : ∀ reader ∈ stack.readers, reader.Inside message) (value : α → Value) :
    ∀ reader ∈ (stack.decode decoder value).2.readers, reader.Inside message := by
  obtain ⟨htop, hbelow⟩ := List.forall_mem_cons.mp h
  obtain ⟨position, limit, hposition, hlimit, heq⟩ := htop
  obtain ⟨next, hnext, hresult⟩ := hdecoder position limit hposition hlimit
  have hmoved : Reader.Inside message (.placed message next limit) :=
    ⟨next, limit, hnext, hlimit, rfl⟩
  rw [decode, heq]
  obtain ⟨a, ha⟩ | ⟨error, herror⟩ := hresult
  · rw [ha]
    exact List.forall_mem_cons.mpr ⟨hmoved, hbelow⟩
  · rw [herror]
    exact List.forall_mem_cons.mpr ⟨hmoved, hbelow⟩

theorem inside_narrow (count : Nat) (h : ∀ reader ∈ stack.readers, reader.Inside message) :
    ∀ reader ∈ (stack.apply (.narrow count)).2.readers, reader.Inside message := by
  obtain ⟨htop, -⟩ := List.forall_mem_cons.mp h
  obtain ⟨position, limit, hposition, hlimit, heq⟩ := htop
  by_cases hcount : count ≤ limit - position
  · have hnarrow : Decoder.narrow count stack.top =
        .ok (.placed message position (position + count)) stack.top := by
      rw [heq]
      exact if_pos hcount
    rw [apply, hnarrow]
    exact List.forall_mem_cons.mpr ⟨⟨position, position + count, hposition, by omega, rfl⟩, h⟩
  · have hnarrow : Decoder.narrow count stack.top =
        .error (.truncated position count (limit - position)) stack.top := by
      rw [heq]
      exact if_neg hcount
    rw [apply, hnarrow]
    exact h

/-- No step takes a reader out of the message. -/
theorem inside_apply (step : Step) (h : ∀ reader ∈ stack.readers, reader.Inside message) :
    ∀ reader ∈ (stack.apply step).2.readers, reader.Inside message := by
  cases step with
  | octet => exact inside_decode Decoder.staysInside_octet h _
  | word16 => exact inside_decode Decoder.staysInside_word16 h _
  | word32 => exact inside_decode Decoder.staysInside_word32 h _
  | octets count => exact inside_decode (Decoder.staysInside_octets count) h _
  | nameText => exact inside_decode Decoder.staysInside_nameText h _
  | seek position => exact inside_decode (Decoder.staysInside_seek position) h _
  | narrow count => exact inside_narrow count h
  | back =>
    match stack, h with
    | ⟨_, []⟩, h => exact h
    | ⟨_, _ :: _⟩, h => exact (List.forall_mem_cons.mp h).2
  | question => exact inside_decode Decoder.staysInside_question h _
  | record => exact inside_decode Decoder.staysInside_record h _
  | header => exact inside_decode Decoder.staysInside_header h _

theorem Reachable.inside (h : Reachable message stack) :
    ∀ reader ∈ stack.readers, reader.Inside message := by
  induction h with
  | start =>
    refine List.forall_mem_singleton.mpr ⟨0, message.length, Nat.zero_le _, Nat.le_refl _, ?_⟩
    exact Reader.ofOctets_eq_placed message
  | step step _ ih => exact inside_apply step ih

end ReaderStack
end DnsResolver
