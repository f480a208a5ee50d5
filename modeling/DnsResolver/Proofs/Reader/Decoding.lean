import Mathlib.Data.List.Forall2
import DnsResolver.Reader.Basic

/-!
# Steps that decode octets

A step decodes some octets to a value if, wherever these octets stand in the window of a reader, it
gives the value and moves the cursor right behind them.  Steps in sequence decode octets in
sequence.  In the other direction, a sequence of steps that succeeds is a sequence of successes.
-/

namespace DnsResolver

namespace Octets

/-- From `position` on, `message` reads `part`. -/
def StandsAt (message : Octets) (position : Nat) (part : Octets) : Prop :=
  part <+: message.drop position

instance (message : Octets) (position : Nat) (part : Octets) :
    Decidable (StandsAt message position part) :=
  inferInstanceAs (Decidable (part <+: message.drop position))

theorem standsAt_append_iff {message : Octets} {position : Nat} {xs ys : Octets} :
    StandsAt message position (xs ++ ys) ↔
      StandsAt message position xs ∧ StandsAt message (position + xs.length) ys := by
  unfold StandsAt
  rw [← List.drop_drop]
  constructor
  · rintro ⟨tail, htail⟩
    rw [← htail, List.append_assoc, List.drop_left]
    exact ⟨List.prefix_append _ _, List.prefix_append _ _⟩
  · rintro ⟨⟨front, hfront⟩, hys⟩
    rw [← hfront, List.drop_left] at hys
    rw [← hfront]
    exact List.prefix_append_right_inj xs |>.mpr hys

theorem standsAt_cons_iff {message : Octets} {position : Nat} {c : UInt8} {rest : Octets} :
    StandsAt message position (c :: rest) ↔
      message[position]? = some c ∧ StandsAt message (position + 1) rest := by
  rw [← List.singleton_append, standsAt_append_iff, List.length_singleton]
  have hhead : StandsAt message position [c] ↔ message[position]? = some c := by
    rw [StandsAt, ← List.head?_drop]
    cases message.drop position <;> simp [eq_comm]
  rw [hhead]

theorem standsAt_zero (octets trailing : Octets) : StandsAt (octets ++ trailing) 0 octets :=
  List.prefix_append octets trailing

/-- A part of a message is what the message holds there. -/
theorem StandsAt.take_drop {message : Octets} {position : Nat} {part : Octets}
    (h : StandsAt message position part) :
    (message.drop position).take part.length = part := by
  obtain ⟨tail, htail⟩ := h
  rw [← htail, List.take_left]

theorem StandsAt.length_le {message : Octets} {position : Nat} {part : Octets}
    (h : StandsAt message position part) :
    part.length ≤ message.length - position := by
  have hlength := List.IsPrefix.length_le h
  rwa [List.length_drop] at hlength

end Octets

namespace Reader

open Octets (StandsAt)

/-- The reader of `message` with its cursor at `position` and a window that ends at `limit`. -/
def placed (message : Octets) (position limit : Nat) : Reader where
  buffer := message.toArray
  position := position
  limit := limit

theorem ofOctets_eq_placed (message : Octets) :
    ofOctets message = placed message 0 message.length :=
  rfl

theorem size_buffer_placed (message : Octets) (position limit : Nat) :
    (placed message position limit).buffer.size = message.length := by
  simp [placed]

theorem remaining_placed (message : Octets) (position limit : Nat) :
    (placed message position limit).remaining = limit - position :=
  rfl

theorem slice_eq (reader : Reader) (start count : Nat) :
    reader.slice start count = (reader.buffer.toList.drop start).take count := by
  simp [slice, Array.toList_extract, List.extract_eq_take_drop]

theorem slice_placed {message part : Octets} {start : Nat} (h : StandsAt message start part)
    (position limit : Nat) :
    (placed message position limit).slice start part.length = part := by
  rw [slice_eq]
  exact h.take_drop

theorem octetAt_placed {message : Octets} {index : Nat} {c : UInt8} (h : message[index]? = some c)
    (position limit : Nat) :
    (placed message position limit).octetAt index = c := by
  simp [octetAt, placed, Array.getD_eq_getD_getElem?, h]

end Reader

namespace Decoder

open Octets (StandsAt)

variable {α β : Type}

/-! ## Steps in sequence -/

theorem bind_of_ok {step : Decoder α} {next : α → Decoder β} {reader behind : Reader} {a : α}
    (h : step reader = .ok a behind) :
    (step >>= next) reader = next a behind := by
  change EStateM.bind step next reader = _
  rw [EStateM.bind, h]

theorem bind_of_error {step : Decoder α} {next : α → Decoder β} {reader behind : Reader}
    {error : DecodeError} (h : step reader = .error error behind) :
    (step >>= next) reader = .error error behind := by
  change EStateM.bind step next reader = _
  rw [EStateM.bind, h]

/-- A sequence of steps succeeds only if each step does. -/
theorem bind_eq_ok_iff {step : Decoder α} {next : α → Decoder β} {reader behind : Reader} {b : β} :
    (step >>= next) reader = .ok b behind ↔
      ∃ a between, step reader = .ok a between ∧ next a between = .ok b behind := by
  change EStateM.bind step next reader = _ ↔ _
  rw [EStateM.bind]
  cases step reader with
  | ok a between =>
    constructor
    · intro h
      exact ⟨a, between, rfl, h⟩
    · rintro ⟨_, _, hstep, h⟩
      cases hstep
      exact h
  | error e between => simp

theorem pure_eq_ok_iff {a b : α} {reader behind : Reader} :
    (pure a : Decoder α) reader = .ok b behind ↔ a = b ∧ reader = behind := by
  change EStateM.Result.ok a reader = _ ↔ _
  simp

theorem exists_of_map_eq_ok {step : Decoder α} {f : α → β} {reader behind : Reader} {b : β}
    (h : (do return f (← step)) reader = .ok b behind) :
    ∃ a, f a = b := by
  obtain ⟨a, _, _, hpure⟩ := bind_eq_ok_iff.mp h
  exact ⟨a, (pure_eq_ok_iff.mp hpure).1⟩

/-! ## Decoding in a window -/

/-- Wherever `octets` stand in a window, the step gives `a` and moves behind them. -/
def Decodes (message : Octets) (step : Decoder α) (octets : Octets) (a : α) : Prop :=
  ∀ position limit, StandsAt message position octets →
    position + octets.length ≤ limit → limit ≤ message.length →
      step (.placed message position limit) =
        .ok a (.placed message (position + octets.length) limit)

/-- In a window that holds `octets` and nothing else, the step gives `a`. -/
def DecodesWhole (message : Octets) (step : Decoder α) (octets : Octets) (a : α) : Prop :=
  ∀ position, StandsAt message position octets → position + octets.length ≤ message.length →
    ∃ behind, step (.placed message position (position + octets.length)) = .ok a behind

variable {message : Octets}

theorem Decodes.whole {step : Decoder α} {octets : Octets} {a : α}
    (h : Decodes message step octets a) :
    DecodesWhole message step octets a :=
  fun position hstands hlimit => ⟨_, h position _ hstands (Nat.le_refl _) hlimit⟩

theorem decodes_pure (a : α) : Decodes message (pure a) [] a := by
  intro position limit _ _ _
  rfl

theorem Decodes.bind {first : Decoder α} {next : α → Decoder β} {xs ys : Octets} {a : α} {b : β}
    (hfirst : Decodes message first xs a) (hnext : Decodes message (next a) ys b) :
    Decodes message (first >>= next) (xs ++ ys) b := by
  intro position limit hstands hfits hlimit
  obtain ⟨hxs, hys⟩ := Octets.standsAt_append_iff.mp hstands
  rw [List.length_append] at hfits
  rw [bind_of_ok (hfirst position limit hxs (by omega) hlimit),
    hnext (position + xs.length) limit hys (by omega) hlimit, List.length_append, Nat.add_assoc]

theorem Decodes.map {step : Decoder α} {octets : Octets} {a : α}
    (h : Decodes message step octets a) (f : α → β) :
    Decodes message (do return f (← step)) octets (f a) := by
  have hbind : Decodes message (do return f (← step)) (octets ++ []) (f a) :=
    h.bind (decodes_pure (f a))
  rwa [List.append_nil] at hbind

theorem DecodesWhole.map {step : Decoder α} {octets : Octets} {a : α}
    (h : DecodesWhole message step octets a) (f : α → β) :
    DecodesWhole message (do return f (← step)) octets (f a) := by
  intro position hstands hlimit
  obtain ⟨behind, hstep⟩ := h position hstands hlimit
  exact ⟨behind, bind_of_ok hstep⟩

/-! ## The primitive steps -/

theorem decodes_octets (part : Octets) : Decodes message (octets part.length) part part := by
  intro position limit hstands hfits _
  have hremaining : part.length ≤ (Reader.placed message position limit).remaining := by
    rw [Reader.remaining_placed]
    omega
  rw [octets, if_pos hremaining, Reader.placed, Reader.placed]
  congr 1
  exact Reader.slice_placed hstands position limit

theorem decodes_word16 (w : UInt16) : Decodes message word16 (Octets.ofWord16 w) w := by
  have hoctets : Decodes message (octets 2) (Octets.ofWord16 w) (Octets.ofWord16 w) :=
    decodes_octets (Octets.ofWord16 w)
  have h := hoctets.map fun octets => UInt16.ofNat (Octets.value octets)
  rwa [Octets.value_ofWord16, UInt16.ofNat_toNat] at h

theorem decodes_word32 (w : UInt32) : Decodes message word32 (Octets.ofWord32 w) w := by
  have hoctets : Decodes message (octets 4) (Octets.ofWord32 w) (Octets.ofWord32 w) :=
    decodes_octets (Octets.ofWord32 w)
  have h := hoctets.map fun octets => UInt32.ofNat (Octets.value octets)
  rwa [Octets.value_ofWord32, UInt32.ofNat_toNat] at h

theorem decodesWhole_rest (part : Octets) : DecodesWhole message rest part part := by
  intro position hstands hlimit
  have hremaining : (Reader.placed message position (position + part.length)).remaining =
      part.length := by
    rw [Reader.remaining_placed, Nat.add_sub_cancel_left]
  rw [rest, hremaining]
  exact (decodes_octets part).whole position hstands hlimit

/-- A step that is confined to octets of the window moves behind them, however many of them it uses,
and stays in front of them if it fails. -/
theorem within_placed {step : Decoder α} {count position limit : Nat}
    (hfits : count ≤ limit - position) (hinside : position + count ≤ message.length) :
    within count step (.placed message position limit) =
      match step (.placed message position (position + count)) with
      | .ok a _ => .ok a (.placed message (position + count) limit)
      | .error e _ => .error e (.placed message position limit) := by
  have hnarrow : narrow count (.placed message position limit) =
      .ok (.placed message position (position + count)) (.placed message position limit) :=
    if_pos hfits
  have hseek : seek (position + count) (.placed message position limit) =
      .ok () (.placed message (position + count) limit) := by
    rw [seek, if_pos (by rwa [Reader.size_buffer_placed])]
    rfl
  rw [within, bind_of_ok hnarrow]
  cases step (.placed message position (position + count)) with
  | ok a inside => exact bind_of_ok hseek
  | error e inside => rfl

/-- A step cannot be confined to more octets than the window has left. -/
theorem within_of_lt {step : Decoder α} {count position limit : Nat}
    (h : limit - position < count) :
    within count step (.placed message position limit) =
      .error (.truncated position count (limit - position)) (.placed message position limit) :=
  bind_of_error (if_neg (Nat.not_le.mpr h))

/-- A step that is confined to the octets that it decodes moves behind them. -/
theorem DecodesWhole.within {step : Decoder α} {part : Octets} {a : α}
    (h : DecodesWhole message step part a) :
    Decodes message (Decoder.within part.length step) part a := by
  intro position limit hstands hfits hlimit
  have hinside : position + part.length ≤ message.length := Nat.le_trans hfits hlimit
  obtain ⟨behind, hstep⟩ := h position hstands hinside
  rw [within_placed (by omega) hinside, hstep]

/-- Repeating a step decodes the octets of the single entries, one behind the other. -/
theorem decodes_replicate {step : Decoder α} {parts : List Octets} {as : List α}
    (h : List.Forall₂ (fun a part => Decodes message step part a) as parts) :
    Decodes message (replicate as.length step) parts.flatten as := by
  induction h with
  | nil => exact decodes_pure []
  | @cons a part as parts hhead _ ih =>
    rw [List.length_cons, List.flatten_cons, replicate]
    exact hhead.bind (ih.map (a :: ·))

/-! ## What success tells -/

theorem octets_eq_ok_iff {count : Nat} {reader behind : Reader} {part : Octets} :
    octets count reader = .ok part behind ↔
      count ≤ reader.remaining ∧ reader.slice reader.position count = part ∧
        reader.moveTo (reader.position + count) = behind := by
  rw [octets]
  split
  next h => simp [h]
  next h => simp [h]

theorem length_of_rest_eq_ok {reader behind : Reader} {part : Octets}
    (h : rest reader = .ok part behind) :
    part.length ≤ reader.remaining := by
  rw [rest, octets_eq_ok_iff] at h
  rw [← h.2.1, Reader.slice_eq, List.length_take]
  exact Nat.min_le_left _ _

/-- A confined step that succeeds has had no more octets than it was given. -/
theorem exists_of_within_eq_ok {count : Nat} {step : Decoder α} {reader behind : Reader} {a : α}
    (h : within count step reader = .ok a behind) :
    ∃ window inside, window.remaining = count ∧ step window = .ok a inside := by
  obtain ⟨window, between, hnarrow, hrest⟩ := bind_eq_ok_iff.mp h
  rw [narrow] at hnarrow
  split at hnarrow
  next hcount =>
    obtain ⟨rfl, rfl⟩ : _ ∧ _ := by simpa using hnarrow
    cases hstep : step { reader with limit := reader.position + count } with
    | ok a' inside =>
      simp only [hstep] at hrest
      obtain ⟨_, _, _, hpure⟩ := bind_eq_ok_iff.mp hrest
      obtain ⟨rfl, -⟩ := pure_eq_ok_iff.mp hpure
      exact ⟨_, inside, by simp [Reader.remaining], hstep⟩
    | error e inside =>
      simp only [hstep] at hrest
      cases hrest
  next => cases hnarrow

theorem length_of_replicate_eq_ok {count : Nat} {step : Decoder α} {reader behind : Reader}
    {as : List α} (h : replicate count step reader = .ok as behind) :
    as.length = count := by
  induction count generalizing reader behind as with
  | zero =>
    obtain ⟨rfl, -⟩ := pure_eq_ok_iff.mp h
    rfl
  | succ count ih =>
    obtain ⟨a, _, _, h⟩ := bind_eq_ok_iff.mp h
    obtain ⟨rest, _, hrest, hpure⟩ := bind_eq_ok_iff.mp h
    obtain ⟨rfl, -⟩ := pure_eq_ok_iff.mp hpure
    rw [List.length_cons, ih hrest]

/-- What every success of a step gives, every entry of a repetition has. -/
theorem forall_mem_of_replicate_eq_ok {p : α → Prop} {count : Nat} {step : Decoder α}
    (hstep : ∀ {reader behind a}, step reader = .ok a behind → p a) {reader behind : Reader}
    {as : List α} (h : replicate count step reader = .ok as behind) :
    ∀ a ∈ as, p a := by
  induction count generalizing reader behind as with
  | zero =>
    obtain ⟨rfl, -⟩ := pure_eq_ok_iff.mp h
    simp
  | succ count ih =>
    obtain ⟨a, _, hhead, h⟩ := bind_eq_ok_iff.mp h
    obtain ⟨rest, _, hrest, hpure⟩ := bind_eq_ok_iff.mp h
    obtain ⟨rfl, -⟩ := pure_eq_ok_iff.mp hpure
    exact List.forall_mem_cons.mpr ⟨hstep hhead, ih hrest⟩

end Decoder
end DnsResolver
