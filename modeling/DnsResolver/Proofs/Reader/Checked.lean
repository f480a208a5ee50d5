import Mathlib.Algebra.Group.Nat.Defs
import DnsResolver.Proofs.Reader.Bounds
import DnsResolver.Proofs.Reader.Grammar

/-!
# Checked readers

On a machine a step of a reader can go wrong in two ways that are no errors of decoding: octets are
asked for that do not lie in the message, or a sum of places does not fit a machine word.  A checked
step has no result then.  On readers that lie in a message every checked step has a result, and it
is what the step itself gives.
-/

namespace DnsResolver

/-! ## Checked access -/

/-- The sum of two machine words, if it is one. -/
def wordSum? (a b : Nat) : Option Nat :=
  if a + b < 2 ^ 64 then some (a + b) else none

theorem wordSum?_eq {a b : Nat} (h : a + b < 2 ^ 64) : wordSum? a b = some (a + b) :=
  if_pos h

namespace Reader

/-- The octets from `start` up to `stop`, if these are places in the message in this order. -/
def slice? (reader : Reader) (start stop : Nat) : Option Octets :=
  if start ≤ stop ∧ stop ≤ reader.buffer.size then some (reader.slice start (stop - start))
  else none

/-- The `count` octets from `position` on, if these are there and the place behind them is a machine
word. -/
def octets? (reader : Reader) (position count : Nat) : Option Octets := do
  let stop ← wordSum? position count
  reader.slice? position stop

/-- The octet at `position`, read as a slice of one octet. -/
def octet? (reader : Reader) (position : Nat) : Option UInt8 := do
  let part ← reader.octets? position 1
  part[0]?

/-- The walk along a name, with every octet and every label looked up in the message. -/
def nameLabels? (reader : Reader) (pointers position limit : Nat) :
    Option (Except (DecodeError × Nat) (List Octets × Nat)) :=
  if _inside : position < limit then do
    let length ← reader.octet? position
    let start := position + 1
    if length = 0 then
      return .ok ([], start)
    else if length < 64 then
      if length.toNat ≤ limit - start then
        let label ← reader.octets? start length.toNat
        let stop := start + length.toNat
        match label.find? fun c => !Octets.isLabelOctet c with
        | some c => return .error (.illegalLabelOctet c, stop)
        | none =>
          match ← reader.nameLabels? pointers stop limit with
          | .ok (labels, next) => return .ok (label :: labels, next)
          | .error fault => return .error fault
      else
        return .error (.truncated start length.toNat (limit - start), start)
    else if length < 192 then
      return .error (.reservedLabelType length, start)
    else
      match pointers with
      | 0 => return .error (.compressionLoop, start)
      | pointers + 1 =>
        if start < limit then
          let low ← reader.octet? start
          let offset := (length.toNat - 192) * 256 + low.toNat
          if offset < reader.buffer.size then
            match ← reader.nameLabels? pointers offset reader.buffer.size with
            | .ok (labels, _) => return .ok (labels, start + 1)
            | .error fault => return .error fault
          else
            return .error (.pointerOutOfBounds offset reader.buffer.size, start + 1)
        else
          return .error (.truncated start 1 (limit - start), start)
  else
    return .error (.truncated position 1 (limit - position), position)
termination_by (pointers, limit - position)

variable {reader : Reader}

theorem octets?_eq (hword : reader.buffer.size < 2 ^ 64) {position count : Nat}
    (h : position + count ≤ reader.buffer.size) :
    reader.octets? position count = some (reader.slice position count) := by
  have hslice : reader.slice? position (position + count) = some (reader.slice position count) := by
    rw [slice?, if_pos ⟨Nat.le_add_right _ _, h⟩, Nat.add_sub_cancel_left]
  rw [octets?, wordSum?_eq (Nat.lt_of_le_of_lt h hword)]
  exact hslice

theorem octet?_eq (hword : reader.buffer.size < 2 ^ 64) {position : Nat}
    (h : position < reader.buffer.size) :
    reader.octet? position = some (reader.octetAt position) := by
  rw [octet?, octets?_eq hword h, slice_eq]
  simp [octetAt, Array.getD_eq_getD_getElem?, h]

/-- Wherever a walk reads on in the message, it finds what it looks up. -/
theorem nameLabels?_eq (hword : reader.buffer.size < 2 ^ 64) (pointers position limit : Nat)
    (hlimit : limit ≤ reader.buffer.size) :
    reader.nameLabels? pointers position limit =
      some (reader.nameLabels pointers position limit) := by
  -- The cases are the branches of the walk.  Each octet that is looked up stands in front of `limit`,
  -- and behind a pointer `limit` is the end of the message.
  rw [nameLabels?, nameLabels]
  by_cases hinside : position < limit
  · simp only [dif_pos hinside, octet?_eq hword (Nat.lt_of_lt_of_le hinside hlimit),
      Option.bind_eq_bind, Option.bind_some, Option.pure_def]
    by_cases hzero : reader.octetAt position = 0
    · rw [if_pos hzero, if_pos hzero]
    rw [if_neg hzero, if_neg hzero]
    by_cases hplain : reader.octetAt position < 64
    · rw [if_pos hplain, if_pos hplain]
      by_cases hstop : position + 1 + (reader.octetAt position).toNat ≤ limit
      · have hrest := nameLabels?_eq hword pointers
          (position + 1 + (reader.octetAt position).toNat) limit hlimit
        rw [if_pos hstop, if_pos (by omega), octets?_eq hword (Nat.le_trans hstop hlimit),
          Option.bind_some]
        cases (reader.slice (position + 1) (reader.octetAt position).toNat).find?
            fun c => !Octets.isLabelOctet c with
        | some c => rfl
        | none =>
          simp only [hrest, Option.bind_some]
          cases reader.nameLabels pointers (position + 1 + (reader.octetAt position).toNat)
              limit with
          | ok found => rfl
          | error fault => rfl
      · rw [if_neg hstop, if_neg (by omega)]
    rw [if_neg hplain, if_neg hplain]
    by_cases hreserved : reader.octetAt position < 192
    · rw [if_pos hreserved, if_pos hreserved]
    rw [if_neg hreserved, if_neg hreserved]
    cases pointers with
    | zero => rfl
    | succ pointers =>
      by_cases hlow : position + 1 < limit
      · simp only [if_pos hlow, octet?_eq hword (Nat.lt_of_lt_of_le hlow hlimit), Option.bind_some]
        generalize ((reader.octetAt position).toNat - 192) * 256 +
          (reader.octetAt (position + 1)).toNat = offset
        by_cases hoffset : offset < reader.buffer.size
        · rw [if_pos hoffset, if_pos hoffset,
            nameLabels?_eq hword pointers offset reader.buffer.size (Nat.le_refl _),
            Option.bind_some]
          cases reader.nameLabels pointers offset reader.buffer.size with
          | ok found => rfl
          | error fault => rfl
        · rw [if_neg hoffset, if_neg hoffset]
      · simp only [if_neg hlow]
  · simp only [dif_neg hinside, Option.pure_def]
termination_by (pointers, limit - position)

end Reader

/-! ## Checked steps -/

/-- A step that reads from a reader and moves it on, or fails, or goes wrong. -/
def Checked (α : Type) : Type :=
  Reader → Option (EStateM.Result DecodeError Reader α)

namespace Checked

variable {α β : Type}

/-- Two steps in sequence. -/
protected def bind (step : Checked α) (next : α → Checked β) : Checked β := fun reader =>
  match step reader with
  | some (.ok a between) => next a between
  | some (.error error between) => some (.error error between)
  | none => none

instance : Monad Checked where
  pure a := fun reader => some (.ok a reader)
  bind := Checked.bind

/-- A step in which nothing can go wrong. -/
def ofDecoder (step : Decoder α) : Checked α := fun reader =>
  some (step reader)

/-- What must be there. -/
def demand (a? : Option α) : Checked α := fun reader =>
  a?.map fun a => .ok a reader

/-- The next `count` octets of the window. -/
def octets (count : Nat) : Checked Octets := fun reader =>
  if count ≤ reader.remaining then do
    let part ← reader.octets? reader.position count
    return .ok part (reader.moveTo (reader.position + count))
  else
    some (.error (.truncated reader.position count reader.remaining) reader)

/-- The next octet. -/
def octet : Checked UInt8 := do
  let part ← octets 1
  demand part[0]?

/-- The next two octets as a word. -/
def word16 : Checked UInt16 := do
  let part ← octets 2
  return UInt16.ofNat (Octets.value [← demand part[0]?, ← demand part[1]?])

/-- The next four octets as a word. -/
def word32 : Checked UInt32 := do
  let part ← octets 4
  return UInt32.ofNat (Octets.value
    [← demand part[0]?, ← demand part[1]?, ← demand part[2]?, ← demand part[3]?])

/-- All octets that are left in the window. -/
def rest : Checked Octets := fun reader => octets reader.remaining reader

/-- A reader whose window is the next `count` octets. -/
def narrow (count : Nat) : Checked Reader := fun reader =>
  if count ≤ reader.remaining then do
    let limit ← wordSum? reader.position count
    return .ok { reader with limit } reader
  else
    some (.error (.truncated reader.position count reader.remaining) reader)

/-- Runs a step on the next `count` octets alone and then continues behind them. -/
def within (count : Nat) (step : Checked α) : Checked α := do
  let window ← narrow count
  let stop ← demand (wordSum? window.position count)
  match ← demand (step window) with
  | .ok a _ =>
    ofDecoder (Decoder.seek stop)
    return a
  | .error error _ => ofDecoder (throw error)

/-- The text of the next name. -/
def nameText : Checked Octets := fun reader => do
  match ← reader.nameLabels? maxPointers reader.position reader.limit with
  | .ok (labels, next) => return .ok (Labels.join labels) (reader.moveTo next)
  | .error (error, position) => return .error error (reader.moveTo position)

/-- The next name. -/
def name : Checked Name := do
  match Name.ofOctets (← nameText) with
  | .ok name => return name
  | .error error => ofDecoder (throw (.name error))

/-- The next question. -/
def question : Checked Question := do
  let name ← name
  let type ← word16
  let recordClass ← word16
  return { name, type := ⟨type⟩, recordClass := ⟨recordClass⟩ }

/-- The data of a record of the given type. -/
def recordData (type : RecordType) : Checked RecordData := do
  if type = .a then
    return .a (IPv4.ofWord32 (← word32))
  else if type = .ns then
    return .ns (← name)
  else if type = .cname then
    return .cname (← name)
  else if type = .ptr then
    return .ptr (← name)
  else if type = .mx then
    let preference ← word16
    return .mx preference (← name)
  else
    return .raw type (← rest)

/-- The next record. -/
def record : Checked Record := do
  let name ← name
  let type ← word16
  let recordClass ← word16
  let ttl ← word32
  let length ← word16
  let data ← within length.toNat (recordData ⟨type⟩)
  return { name, recordClass := ⟨recordClass⟩, ttl, data }

/-- The next header. -/
def header : Checked Header := do
  let id ← word16
  let word ← word16
  let questionCount ← word16
  let answerCount ← word16
  let authorityCount ← word16
  let additionalCount ← word16
  return { id, control := Control.ofWord word, questionCount, answerCount, authorityCount,
           additionalCount }

/-! ## Nothing goes wrong -/

variable {message : Octets}

/-- On readers that lie in the message nothing goes wrong in the checked step, which does what the
step does. -/
def Agrees (message : Octets) (checked : Checked α) (step : Decoder α) : Prop :=
  ∀ position limit, position ≤ message.length → limit ≤ message.length →
    checked (.placed message position limit) = some (step (.placed message position limit))

theorem agrees_ofDecoder (step : Decoder α) : Agrees message (ofDecoder step) step :=
  fun _ _ _ _ => rfl

theorem agrees_pure (a : α) : Agrees message (pure a) (pure a) :=
  fun _ _ _ _ => rfl

theorem bind_of_ok {checked : Checked α} {next : α → Checked β} {reader between : Reader} {a : α}
    (h : checked reader = some (.ok a between)) :
    (checked >>= next) reader = next a between := by
  change Checked.bind checked next reader = _
  rw [Checked.bind, h]

theorem bind_of_error {checked : Checked α} {next : α → Checked β} {reader between : Reader}
    {error : DecodeError} (h : checked reader = some (.error error between)) :
    (checked >>= next) reader = some (.error error between) := by
  change Checked.bind checked next reader = _
  rw [Checked.bind, h]

/-- What is there need not be demanded. -/
theorem demand_bind {a? : Option α} {a : α} {next : α → Checked β} (h : a? = some a) :
    (demand a? >>= next) = next a := by
  rw [h]
  rfl

theorem Agrees.bind {checked : Checked α} {step : Decoder α} {next? : α → Checked β}
    {next : α → Decoder β} (h : Agrees message checked step) (hinside : step.StaysInside message)
    (hnext : ∀ a, Agrees message (next? a) (next a)) :
    Agrees message (checked >>= next?) (step >>= next) := by
  intro position limit hposition hlimit
  have hchecked := h position limit hposition hlimit
  obtain ⟨between, hbetween, ⟨a, ha⟩ | ⟨error, herror⟩⟩ := hinside position limit hposition hlimit
  · rw [ha] at hchecked
    rw [bind_of_ok hchecked, Decoder.bind_of_ok ha]
    exact hnext a between limit hbetween hlimit
  · rw [herror] at hchecked
    rw [bind_of_error hchecked, Decoder.bind_of_error herror]

theorem Agrees.map {checked : Checked α} {step : Decoder α} (h : Agrees message checked step)
    (hinside : step.StaysInside message) (f : α → β) :
    Agrees message (do return f (← checked)) (do return f (← step)) :=
  h.bind hinside fun a => agrees_pure (f a)

theorem agrees_octets (hword : message.length < 2 ^ 64) (count : Nat) :
    Agrees message (octets count) (Decoder.octets count) := by
  intro position limit hposition hlimit
  by_cases hcount : count ≤ limit - position
  · have hinside : position + count ≤ message.length := by omega
    have hpart := @Reader.octets?_eq (.placed message position limit) hword _ _ hinside
    have hchecked : octets count (.placed message position limit) =
        ((Reader.placed message position limit).octets? position count).bind fun part =>
          some (.ok part (.placed message (position + count) limit)) :=
      if_pos hcount
    rw [hchecked, hpart, Option.bind_some]
    exact congrArg some (if_pos hcount).symm
  · exact (if_neg hcount).trans (congrArg some (if_neg hcount).symm)

/-- In what is made of some octets, nothing need be missing but when there are too few of them. -/
theorem agrees_octets_bind (hword : message.length < 2 ^ 64) {count : Nat}
    {next? : Octets → Checked α} {next : Octets → Decoder α}
    (hnext : ∀ part, part.length = count → next? part = ofDecoder (next part)) :
    Agrees message (octets count >>= next?) (Decoder.octets count >>= next) := by
  intro position limit hposition hlimit
  have hchecked := agrees_octets hword count position limit hposition hlimit
  by_cases hcount : count ≤ limit - position
  · have hinside : position + count ≤ message.length := by omega
    have hread : Decoder.octets count (.placed message position limit) =
        .ok ((Reader.placed message position limit).slice position count)
          (.placed message (position + count) limit) :=
      if_pos hcount
    rw [hread] at hchecked
    rw [bind_of_ok hchecked, Decoder.bind_of_ok hread,
      hnext _ (Reader.length_slice_placed hinside)]
    rfl
  · have hread : Decoder.octets count (.placed message position limit) =
        .error (.truncated position count (limit - position)) (.placed message position limit) :=
      if_neg hcount
    rw [hread] at hchecked
    rw [bind_of_error hchecked, Decoder.bind_of_error hread]

theorem agrees_octet (hword : message.length < 2 ^ 64) : Agrees message octet Decoder.octet := by
  refine agrees_octets_bind hword fun part hlength => ?_
  match part, hlength with
  | [c], _ =>
    have hvalue : UInt8.ofNat (Octets.value [c]) = c := by
      rw [Octets.value, List.foldl_cons, List.foldl_nil, Nat.zero_mul, Nat.zero_add,
        UInt8.ofNat_toNat]
    rw [hvalue]
    rfl

theorem agrees_word16 (hword : message.length < 2 ^ 64) :
    Agrees message word16 Decoder.word16 := by
  refine agrees_octets_bind hword fun part hlength => ?_
  match part, hlength with
  | [_, _], _ => rfl

theorem agrees_word32 (hword : message.length < 2 ^ 64) :
    Agrees message word32 Decoder.word32 := by
  refine agrees_octets_bind hword fun part hlength => ?_
  match part, hlength with
  | [_, _, _, _], _ => rfl

theorem agrees_rest (hword : message.length < 2 ^ 64) : Agrees message rest Decoder.rest :=
  fun position limit => agrees_octets hword (limit - position) position limit

theorem agrees_narrow (hword : message.length < 2 ^ 64) (count : Nat) :
    Agrees message (narrow count) (Decoder.narrow count) := by
  intro position limit hposition hlimit
  by_cases hcount : count ≤ limit - position
  · have hsum : wordSum? position count = some (position + count) := wordSum?_eq (by omega)
    have hchecked : narrow count (.placed message position limit) =
        (wordSum? position count).bind fun stop =>
          some (.ok (.placed message position stop) (.placed message position limit)) :=
      if_pos hcount
    rw [hchecked, hsum, Option.bind_some]
    exact congrArg some (if_pos hcount).symm
  · exact (if_neg hcount).trans (congrArg some (if_neg hcount).symm)

theorem Agrees.within (hword : message.length < 2 ^ 64) {checked : Checked α} {step : Decoder α}
    (h : Agrees message checked step) (count : Nat) :
    Agrees message (within count checked) (Decoder.within count step) := by
  intro position limit hposition hlimit
  have hnarrow := agrees_narrow hword count position limit hposition hlimit
  by_cases hcount : count ≤ limit - position
  · have hinside : position + count ≤ message.length := by omega
    have hwindow : Decoder.narrow count (.placed message position limit) =
        .ok (.placed message position (position + count)) (.placed message position limit) :=
      if_pos hcount
    have hstop : wordSum? (Reader.placed message position (position + count)).position count =
        some (position + count) :=
      wordSum?_eq (Nat.lt_of_le_of_lt hinside hword)
    rw [hwindow] at hnarrow
    rw [Checked.within, bind_of_ok hnarrow, demand_bind hstop,
      demand_bind (h position (position + count) hposition hinside),
      Decoder.within_placed hcount hinside]
    cases step (.placed message position (position + count)) with
    | ok a inside =>
      have hseek : ofDecoder (Decoder.seek (position + count)) (.placed message position limit) =
          some (.ok () (.placed message (position + count) limit)) :=
        congrArg some (if_pos hinside)
      exact bind_of_ok hseek
    | error error inside => rfl
  · have hwindow : Decoder.narrow count (.placed message position limit) =
        .error (.truncated position count (limit - position)) (.placed message position limit) :=
      if_neg hcount
    rw [hwindow] at hnarrow
    rw [Checked.within, bind_of_error hnarrow, Decoder.within_of_lt (Nat.lt_of_not_le hcount)]

theorem agrees_nameText (hword : message.length < 2 ^ 64) :
    Agrees message nameText Decoder.nameText := by
  intro position limit hposition hlimit
  have hwalk := @Reader.nameLabels?_eq (.placed message position limit) hword maxPointers
    position limit hlimit
  have hchecked : nameText (.placed message position limit) =
      ((Reader.placed message position limit).nameLabels? maxPointers position limit).bind fun
        | .ok (labels, next) => some (.ok (Labels.join labels) (.placed message next limit))
        | .error (error, next) => some (.error error (.placed message next limit)) :=
    rfl
  rw [hchecked, hwalk, Option.bind_some, Decoder.nameText_placed]
  cases (Reader.placed message position limit).nameLabels maxPointers position limit with
  | ok found => rfl
  | error fault => rfl

theorem agrees_name (hword : message.length < 2 ^ 64) : Agrees message name Decoder.name := by
  refine (agrees_nameText hword).bind Decoder.staysInside_nameText fun text => ?_
  cases Name.ofOctets text with
  | ok name => exact agrees_pure name
  | error error => exact agrees_ofDecoder _

theorem agrees_question (hword : message.length < 2 ^ 64) :
    Agrees message question Decoder.question := by
  refine (agrees_name hword).bind Decoder.staysInside_name fun _ => ?_
  refine (agrees_word16 hword).bind Decoder.staysInside_word16 fun _ => ?_
  exact (agrees_word16 hword).map Decoder.staysInside_word16 _

theorem agrees_recordData (hword : message.length < 2 ^ 64) (type : RecordType) :
    Agrees message (recordData type) (Decoder.recordData type) := by
  have hname (f : Name → RecordData) :
      Agrees message (do return f (← name)) (do return f (← Decoder.name)) :=
    (agrees_name hword).map Decoder.staysInside_name f
  unfold recordData Decoder.recordData
  split
  · exact (agrees_word32 hword).map Decoder.staysInside_word32 _
  split
  · exact hname .ns
  split
  · exact hname .cname
  split
  · exact hname .ptr
  split
  · exact (agrees_word16 hword).bind Decoder.staysInside_word16 fun preference =>
      hname (.mx preference)
  · exact (agrees_rest hword).map Decoder.staysInside_rest _

theorem agrees_record (hword : message.length < 2 ^ 64) :
    Agrees message record Decoder.record := by
  refine (agrees_name hword).bind Decoder.staysInside_name fun _ => ?_
  refine (agrees_word16 hword).bind Decoder.staysInside_word16 fun type => ?_
  refine (agrees_word16 hword).bind Decoder.staysInside_word16 fun _ => ?_
  refine (agrees_word32 hword).bind Decoder.staysInside_word32 fun _ => ?_
  refine (agrees_word16 hword).bind Decoder.staysInside_word16 fun length => ?_
  exact ((agrees_recordData hword ⟨type⟩).within hword length.toNat).map
    (Decoder.staysInside_within _ _) _

theorem agrees_header (hword : message.length < 2 ^ 64) :
    Agrees message header Decoder.header := by
  refine (agrees_word16 hword).bind Decoder.staysInside_word16 fun _ => ?_
  refine (agrees_word16 hword).bind Decoder.staysInside_word16 fun _ => ?_
  refine (agrees_word16 hword).bind Decoder.staysInside_word16 fun _ => ?_
  refine (agrees_word16 hword).bind Decoder.staysInside_word16 fun _ => ?_
  refine (agrees_word16 hword).bind Decoder.staysInside_word16 fun _ => ?_
  exact (agrees_word16 hword).map Decoder.staysInside_word16 _

end Checked
end DnsResolver
