import Mathlib.Data.List.Induction
import DnsResolver.Proofs.Reader.Checked

/-!
# The safety of readers

Whatever is read from a message in whatever order, failures included, no octet outside of it is
looked up and no place outgrows a machine word.  A plain read succeeds exactly if the window has
enough octets left, and if it fails, the reader may be used on as if it had not been tried.
-/

namespace DnsResolver

open Octets (StandsAt)

namespace Octets

theorem value_append_singleton (octets : Octets) (c : UInt8) :
    value (octets ++ [c]) = value octets * 256 + c.toNat := by
  rw [value, List.foldl_append]
  rfl

/-- So many octets spell a number below that power of 256. -/
theorem value_lt (octets : Octets) : value octets < 256 ^ octets.length := by
  induction octets using List.reverseRecOn with
  | nil => exact Nat.one_pos
  | append_singleton octets c ih =>
    have hc := c.toNat_lt
    rw [value_append_singleton, List.length_append, List.length_singleton, Nat.pow_succ]
    omega

end Octets

/-! ## Plain reads -/

namespace Decoder

variable {α β : Type} {message : Octets} {step : Decoder α} {count : Nat} {reading : Octets → α}

/-- The step reads so many octets, if the window has them left, and makes something of just these
octets; if not, it tells how many octets there are, and the cursor stays. -/
structure ReadsExactly (message : Octets) (step : Decoder α) (count : Nat)
    (reading : Octets → α) : Prop where
  succeeds : ∀ position limit, position ≤ message.length → limit ≤ message.length →
    count ≤ limit - position →
    ∃ part, part.length = count ∧ StandsAt message position part ∧
      step (.placed message position limit) =
        .ok (reading part) (.placed message (position + count) limit)
  fails : ∀ position limit, limit - position < count →
    step (.placed message position limit) =
      .error (.truncated position count (limit - position)) (.placed message position limit)

theorem readsExactly_octets (count : Nat) : ReadsExactly message (octets count) count id where
  succeeds position limit hposition hlimit hcount :=
    ⟨_, Reader.length_slice_placed (by omega), Reader.slice_standsAt position count, if_pos hcount⟩
  fails _ _ hcount := if_neg (Nat.not_le.mpr hcount)

theorem ReadsExactly.map (h : ReadsExactly message step count reading) (f : α → β) :
    ReadsExactly message (do return f (← step)) count (f ∘ reading) where
  succeeds position limit hposition hlimit hcount := by
    obtain ⟨part, hlength, hstands, hstep⟩ := h.succeeds position limit hposition hlimit hcount
    exact ⟨part, hlength, hstands, bind_of_ok hstep⟩
  fails position limit hcount := bind_of_error (h.fails position limit hcount)

/-- The step leaves the reader as it was if it fails. -/
def KeepsPlace (step : Decoder α) : Prop :=
  ∀ reader error behind, step reader = .error error behind → behind = reader

theorem keepsPlace_octets (count : Nat) : KeepsPlace (octets count) := by
  intro reader error behind h
  rw [octets] at h
  split at h
  · cases h
  · cases h
    rfl

theorem keepsPlace_seek (position : Nat) : KeepsPlace (seek position) := by
  intro reader error behind h
  rw [seek] at h
  split at h
  · cases h
  · cases h
    rfl

theorem keepsPlace_narrow (count : Nat) : KeepsPlace (narrow count) := by
  intro reader error behind h
  rw [narrow] at h
  split at h
  · cases h
  · cases h
    rfl

theorem KeepsPlace.map (h : KeepsPlace step) (f : α → β) :
    KeepsPlace (do return f (← step)) := by
  intro reader error behind hmap
  cases hstep : step reader with
  | ok a between =>
    rw [bind_of_ok hstep] at hmap
    cases hmap
  | error fault between =>
    rw [bind_of_error hstep] at hmap
    cases hmap
    exact h reader error behind hstep

end Decoder

/-! ## Steps on stacks of readers -/

namespace ReaderStack

variable {α : Type} {message : Octets} {stack : ReaderStack}

/-- Runs a checked step on the reader on top. -/
def decodeChecked (stack : ReaderStack) (step : Checked α) (value : α → Value) :
    Option (Except DecodeError Value × ReaderStack) := do
  match ← step stack.top with
  | .ok a top => return (.ok (value a), { stack with top })
  | .error error top => return (.error error, { stack with top })

/-- Runs one step, unless something goes wrong in it. -/
def applyChecked (stack : ReaderStack) : Step → Option (Except DecodeError Value × ReaderStack)
  | .octet => stack.decodeChecked Checked.octet fun n => .number n.toNat
  | .word16 => stack.decodeChecked Checked.word16 fun n => .number n.toNat
  | .word32 => stack.decodeChecked Checked.word32 fun n => .number n.toNat
  | .octets count => stack.decodeChecked (Checked.octets count) .octets
  | .nameText => stack.decodeChecked Checked.nameText .text
  | .seek position => stack.decodeChecked (.ofDecoder (Decoder.seek position)) fun _ => .none
  | .narrow count => do
    match ← Checked.narrow count stack.top with
    | .ok inner outer => return (.ok .none, ⟨inner, outer :: stack.below⟩)
    | .error error top => return (.error error, { stack with top })
  | .back => some (stack.apply .back)
  | .question => stack.decodeChecked Checked.question .question
  | .record => stack.decodeChecked Checked.record .record
  | .header => stack.decodeChecked Checked.header .header

/-- The number of octets that a plain read takes. -/
def Step.width? : Step → Option Nat
  | .octet => some 1
  | .word16 => some 2
  | .word32 => some 4
  | .octets count => some count
  | .nameText | .seek _ | .narrow _ | .back | .question | .record | .header => none

/-- What a plain read gives for the octets that it takes. -/
def Step.reading (step : Step) (part : Octets) : Value :=
  match step with
  | .octets _ => .octets part
  | _ => .number part.value

/-- Whether the step is a plain read, or places the cursor or a window. -/
def Step.isPrimitive : Step → Bool
  | .octet | .word16 | .word32 | .octets _ | .seek _ | .narrow _ => true
  | .nameText | .back | .question | .record | .header => false

/-- The step takes so many octets, if the window on top has them left, and gives just these octets
or the number that they spell; if not, it tells how many octets there are, and nothing changes. -/
structure ReadsExactly (message : Octets) (stack : ReaderStack) (step : Step) (count : Nat) :
    Prop where
  succeeds : count ≤ stack.top.limit - stack.top.position →
    ∃ part, part.length = count ∧ StandsAt message stack.top.position part ∧
      stack.apply step = (.ok (step.reading part),
        { stack with top := stack.top.moveTo (stack.top.position + count) })
  fails : stack.top.limit - stack.top.position < count →
    stack.apply step = (.error (.truncated stack.top.position count
      (stack.top.limit - stack.top.position)), stack)

/-! ## Nothing goes wrong -/

theorem decodeChecked_eq {checked : Checked α} {decoder : Decoder α}
    (h : checked.Agrees message decoder) (hinside : stack.top.Inside message) (value : α → Value) :
    stack.decodeChecked checked value = some (stack.decode decoder value) := by
  obtain ⟨position, limit, hposition, hlimit, htop⟩ := hinside
  rw [decodeChecked, decode, htop, h position limit hposition hlimit]
  cases decoder (.placed message position limit) with
  | ok a top => rfl
  | error error top => rfl

/-- In no step on a reader in the message anything goes wrong. -/
theorem applyChecked_eq (hword : message.length < 2 ^ 64) (hinside : stack.top.Inside message)
    (step : Step) :
    stack.applyChecked step = some (stack.apply step) := by
  cases step with
  | octet => exact decodeChecked_eq (Checked.agrees_octet hword) hinside _
  | word16 => exact decodeChecked_eq (Checked.agrees_word16 hword) hinside _
  | word32 => exact decodeChecked_eq (Checked.agrees_word32 hword) hinside _
  | octets count => exact decodeChecked_eq (Checked.agrees_octets hword count) hinside _
  | nameText => exact decodeChecked_eq (Checked.agrees_nameText hword) hinside _
  | seek position => exact decodeChecked_eq (Checked.agrees_ofDecoder _) hinside _
  | narrow count =>
    obtain ⟨position, limit, hposition, hlimit, htop⟩ := hinside
    have hnarrow := Checked.agrees_narrow hword count position limit hposition hlimit
    rw [applyChecked, apply, htop, hnarrow]
    cases Decoder.narrow count (.placed message position limit) with
    | ok inner outer => rfl
    | error error top => rfl
  | back => rfl
  | question => exact decodeChecked_eq (Checked.agrees_question hword) hinside _
  | record => exact decodeChecked_eq (Checked.agrees_record hword) hinside _
  | header => exact decodeChecked_eq (Checked.agrees_header hword) hinside _

/-! ## What plain reads give -/

theorem readsExactly_of_decode {decoder : Decoder α} {count : Nat} {reading : Octets → α}
    {value : α → Value} {step : Step} (happly : stack.apply step = stack.decode decoder value)
    (hreads : decoder.ReadsExactly message count reading) (hinside : stack.top.Inside message)
    (hvalue : ∀ part, part.length = count → value (reading part) = step.reading part) :
    stack.ReadsExactly message step count := by
  obtain ⟨top, below⟩ := stack
  obtain ⟨position, limit, hposition, hlimit, htop⟩ := hinside
  subst htop
  constructor
  · intro hcount
    obtain ⟨part, hlength, hstands, hread⟩ :=
      hreads.succeeds position limit hposition hlimit hcount
    refine ⟨part, hlength, hstands, ?_⟩
    rw [← hvalue part hlength, happly, decode, hread]
    rfl
  · intro hcount
    rw [happly, decode, hreads.fails position limit hcount]
    rfl

/-- A number that is read is the one that the octets spell, as it has room for it. -/
theorem readsExactly_of_number {step : Step} {count : Nat} {ofNat : Nat → α} {toNat : α → Nat}
    (hinside : stack.top.Inside message)
    (happly : stack.apply step =
      stack.decode (do return ofNat (← Decoder.octets count).value) fun a => .number (toNat a))
    (hroom : ∀ n < 256 ^ count, toNat (ofNat n) = n)
    (hreading : ∀ part, step.reading part = .number part.value) :
    stack.ReadsExactly message step count := by
  refine readsExactly_of_decode happly ((Decoder.readsExactly_octets count).map _) hinside ?_
  intro part hlength
  have hvalue : part.value < 256 ^ count := hlength ▸ part.value_lt
  rw [hreading]
  exact congrArg Value.number (hroom part.value hvalue)

/-- A plain read takes the octets that it asks for, or nothing at all. -/
theorem readsExactly_of_width (hinside : stack.top.Inside message) {step : Step} {count : Nat}
    (hwidth : step.width? = some count) :
    stack.ReadsExactly message step count := by
  cases step with
  | octet =>
    cases hwidth
    exact readsExactly_of_number hinside rfl (fun _ => UInt8.toNat_ofNat_of_lt') fun _ => rfl
  | word16 =>
    cases hwidth
    exact readsExactly_of_number hinside rfl (fun _ => UInt16.toNat_ofNat_of_lt') fun _ => rfl
  | word32 =>
    cases hwidth
    exact readsExactly_of_number hinside rfl (fun _ => UInt32.toNat_ofNat_of_lt') fun _ => rfl
  | octets count =>
    cases hwidth
    exact readsExactly_of_decode rfl (Decoder.readsExactly_octets count) hinside fun _ _ => rfl
  | nameText | seek _ | narrow _ | back | question | record | header => cases hwidth

/-! ## What is left behind by a failure -/

theorem unchanged_of_keepsPlace {decoder : Decoder α} (h : decoder.KeepsPlace)
    {value : α → Value} {error : DecodeError}
    (hfails : (stack.decode decoder value).1 = .error error) :
    (stack.decode decoder value).2 = stack := by
  rw [decode] at hfails ⊢
  cases hread : decoder stack.top with
  | ok a top =>
    rw [hread] at hfails
    cases hfails
  | error fault top => rw [h stack.top fault top hread]

/-- A primitive step that fails changes nothing. -/
theorem unchanged_of_isPrimitive {step : Step} (hprimitive : step.isPrimitive = true)
    {error : DecodeError} (hfails : (stack.apply step).1 = .error error) :
    (stack.apply step).2 = stack := by
  cases step with
  | octet => exact unchanged_of_keepsPlace ((Decoder.keepsPlace_octets 1).map _) hfails
  | word16 => exact unchanged_of_keepsPlace ((Decoder.keepsPlace_octets 2).map _) hfails
  | word32 => exact unchanged_of_keepsPlace ((Decoder.keepsPlace_octets 4).map _) hfails
  | octets count => exact unchanged_of_keepsPlace (Decoder.keepsPlace_octets count) hfails
  | seek position => exact unchanged_of_keepsPlace (Decoder.keepsPlace_seek position) hfails
  | narrow count =>
    rw [apply] at hfails ⊢
    cases hnarrow : Decoder.narrow count stack.top with
    | ok inner outer =>
      rw [hnarrow] at hfails
      cases hfails
    | error fault top => rw [Decoder.keepsPlace_narrow count stack.top fault top hnarrow]
  | nameText | back | question | record | header => cases hprimitive

/-! ## Safety -/

/-- Whatever steps have been run on a message, with whatever counts and whether or not they failed:
every cursor and every window ends in the message; in no next step anything goes wrong, if the
message has fewer than `2 ^ 64` octets, as every message in memory has; a plain read takes just the
octets that it asks for, or fails as there are too few; and a primitive step that fails changes
nothing. -/
theorem Reachable.reads_safely (h : Reachable message stack) :
    (∀ reader ∈ stack.readers, reader.buffer = message.toArray ∧
      reader.position ≤ message.length ∧ reader.limit ≤ message.length) ∧
    (message.length < 2 ^ 64 →
      ∀ step, stack.applyChecked step = some (stack.apply step)) ∧
    (∀ step count, Step.width? step = some count → stack.ReadsExactly message step count) ∧
    ∀ step error, Step.isPrimitive step = true → (stack.apply step).1 = .error error →
      (stack.apply step).2 = stack := by
  have hinside := h.inside
  have htop := hinside stack.top (List.mem_cons_self ..)
  refine ⟨fun reader hreader => ?_, fun hword => applyChecked_eq hword htop,
    fun _ _ => readsExactly_of_width htop,
    fun _ _ hprimitive hfails => unchanged_of_isPrimitive hprimitive hfails⟩
  obtain ⟨position, limit, hposition, hlimit, rfl⟩ := hinside reader hreader
  exact ⟨rfl, hposition, hlimit⟩

/-- A compressed name of two octets, and its target, whose first label is cut short. -/
def pointerMessage : Octets := [192, 3, 7, 63, 65]

/-- What is left behind when the name is read in a window of its own: the cursor stands in the
target, behind the end of the window. -/
def pointerStack : ReaderStack where
  top := .placed pointerMessage 4 2
  below := [.placed pointerMessage 0 5]

theorem reachable_pointerStack : Reachable pointerMessage pointerStack := by
  have hpointer : (Reader.placed pointerMessage 0 2).nameLabels maxPointers 0 2 =
      ((Reader.placed pointerMessage 0 2).nameLabels 4 3 5).map fun found => (found.1, 2) :=
    Reader.nameLabels_pointer (by decide) (by decide) (by decide) (by decide)
  have hlabel : (Reader.placed pointerMessage 0 2).nameLabels 4 3 5 =
      .error (.truncated 4 63 1, 4) := by
    rw [Reader.nameLabels]
    rfl
  have hname : Decoder.nameText (.placed pointerMessage 0 2) =
      .error (.truncated 4 63 1) (.placed pointerMessage 4 2) := by
    rw [Decoder.nameText_placed, hpointer, hlabel]
    rfl
  have hstack : pointerStack =
      ((ReaderStack.mk (.placed pointerMessage 0 2) [.placed pointerMessage 0 5]).apply
        .nameText).2 := by
    rw [apply, decode, hname]
    rfl
  rw [hstack]
  exact .step .nameText (.step (.narrow 2) .start)

theorem reads_safely_pointerStack :
    Reachable pointerMessage pointerStack ∧
    pointerStack.applyChecked (.octets (2 ^ 64 - 1)) =
      some (.error (.truncated 4 (2 ^ 64 - 1) 0), pointerStack) ∧
    (pointerStack.apply (.narrow 1)).2 = pointerStack := by
  obtain ⟨_, hchecked, hreads, hunchanged⟩ := reachable_pointerStack.reads_safely
  have hoctets : pointerStack.apply (.octets (2 ^ 64 - 1)) =
      (.error (.truncated 4 (2 ^ 64 - 1) 0), pointerStack) :=
    (hreads (.octets (2 ^ 64 - 1)) (2 ^ 64 - 1) rfl).fails (by decide)
  refine ⟨reachable_pointerStack, ?_, hunchanged (.narrow 1) (.truncated 4 1 0) rfl (by decide)⟩
  rw [hchecked (by decide), hoctets]

end ReaderStack
end DnsResolver
