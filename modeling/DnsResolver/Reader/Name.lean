import DnsResolver.Reader.Basic

/-!
# Names on the wire

A name is a sequence of labels that ends in a zero octet.  In place of any rest of it may stand a
compression pointer, two octets with the offset in the message where the rest is spelled out.
Labels up to and including the first pointer lie inside the window; behind a pointer the whole
message is in reach.  At most `maxPointers` pointers are followed, so every walk ends.
-/

namespace DnsResolver
namespace Reader

/-- Collects the labels of the name at `position`, sequential reads ending at `limit`, and the
place behind the name.  A failure comes with the place where the cursor stands then: at a read
that is cut short, behind a length octet that is refused, behind a pointer that leads out of the
message, or behind a label that holds an illegal octet. -/
def nameLabels (reader : Reader) (pointers position limit : Nat) :
    Except (DecodeError × Nat) (List Octets × Nat) :=
  if _inside : position < limit then
    let length := reader.octetAt position
    let start := position + 1
    if length = 0 then
      .ok ([], start)
    else if length < 64 then
      let stop := start + length.toNat
      if stop ≤ limit then
        let label := reader.slice start length.toNat
        match label.find? fun c => !Octets.isLabelOctet c with
        | some c => .error (.illegalLabelOctet c, stop)
        | none =>
          match nameLabels reader pointers stop limit with
          | .ok (labels, next) => .ok (label :: labels, next)
          | .error fault => .error fault
      else
        .error (.truncated start length.toNat (limit - start), start)
    else if length < 192 then
      .error (.reservedLabelType length, start)
    else
      match pointers with
      | 0 => .error (.compressionLoop, start)
      | pointers + 1 =>
        if start < limit then
          let offset := (length.toNat - 192) * 256 + (reader.octetAt start).toNat
          if offset < reader.buffer.size then
            match nameLabels reader pointers offset reader.buffer.size with
            | .ok (labels, _) => .ok (labels, start + 1)
            | .error fault => .error fault
          else
            .error (.pointerOutOfBounds offset reader.buffer.size, start + 1)
        else
          .error (.truncated start 1 (limit - start), start)
  else
    .error (.truncated position 1 (limit - position), position)
termination_by (pointers, limit - position)

end Reader

namespace Decoder

/-- The text of the next name, its labels joined with full stops. -/
def nameText : Decoder Octets := fun reader =>
  match reader.nameLabels maxPointers reader.position reader.limit with
  | .ok (labels, next) => .ok (Labels.join labels) (reader.moveTo next)
  | .error (error, position) => .error error (reader.moveTo position)

/-- The next name.  If its labels do not make a name, the cursor stands behind them. -/
def name : Decoder Name := do
  match Name.ofOctets (← nameText) with
  | .ok name => return name
  | .error error => throw (.name error)

end Decoder
end DnsResolver
