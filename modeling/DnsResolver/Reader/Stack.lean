import DnsResolver.Header.Basic
import DnsResolver.Question
import DnsResolver.Record.Basic

/-!
# Stacks of readers

A message is read by readers inside each other's windows.  Narrowing puts a reader with a smaller
window on top of a stack, and going back drops it again; the last reader always stays.  Every other
step acts on the reader on top, which is used on after a failure, too.
-/

namespace DnsResolver

/-- Readers inside each other's windows; there is always one on top. -/
structure ReaderStack where
  top : Reader
  below : List Reader := []
  deriving DecidableEq, Repr

namespace ReaderStack

/-- A step on a stack of readers. -/
inductive Step where
  | octet
  | word16
  | word32
  | octets (count : Nat)
  | nameText
  | seek (position : Nat)
  | narrow (count : Nat)
  | back
  | question
  | record
  | header
  deriving DecidableEq, Repr

/-- What a step reads. -/
inductive Value where
  | none
  | number (n : Nat)
  | octets (octets : Octets)
  | text (text : Octets)
  | question (question : Question)
  | record (record : Record)
  | header (header : Header)
  deriving DecidableEq

/-- One reader over a whole message. -/
def ofOctets (octets : Octets) : ReaderStack where
  top := .ofOctets octets

/-- All readers of the stack. -/
def readers (stack : ReaderStack) : List Reader :=
  stack.top :: stack.below

/-- Runs a decoder on the reader on top. -/
def decode {α : Type} (stack : ReaderStack) (decoder : Decoder α) (value : α → Value) :
    Except DecodeError Value × ReaderStack :=
  match decoder stack.top with
  | .ok a top => (.ok (value a), { stack with top })
  | .error error top => (.error error, { stack with top })

/-- Runs one step. -/
def apply (stack : ReaderStack) : Step → Except DecodeError Value × ReaderStack
  | .octet => stack.decode Decoder.octet fun n => .number n.toNat
  | .word16 => stack.decode Decoder.word16 fun n => .number n.toNat
  | .word32 => stack.decode Decoder.word32 fun n => .number n.toNat
  | .octets count => stack.decode (Decoder.octets count) .octets
  | .nameText => stack.decode Decoder.nameText .text
  | .seek position => stack.decode (Decoder.seek position) fun _ => .none
  | .narrow count =>
    match Decoder.narrow count stack.top with
    | .ok inner outer => (.ok .none, ⟨inner, outer :: stack.below⟩)
    | .error error top => (.error error, { stack with top })
  | .back =>
    match stack.below with
    | [] => (.ok .none, stack)
    | top :: below => (.ok .none, ⟨top, below⟩)
  | .question => stack.decode Decoder.question .question
  | .record => stack.decode Decoder.record .record
  | .header => stack.decode Decoder.header .header

end ReaderStack
end DnsResolver
