import DnsResolver.Proofs.Packet.Grammar
import DnsResolver.Proofs.Packet.RoundTrip
import DnsResolver.Proofs.Resolver.AnswerSections
import DnsResolver.Proofs.Resolver.Tracing

/-!
# Replies to clients

A message that is marked as a response gets no reply, and one too short for an identifier is an
error.  Every other message gets one reply, which goes back the way it came, can be read, and
carries the identifier of the message.  What else it holds depends on how the message reads: a
format error if it is no packet or asks nothing, and else the first question with the records it
resolves to.
-/

namespace DnsResolver

/-! ## Marks and identifiers -/

/-- The octets are marked as a response: there is a third one, and its highest bit is set. -/
def MarkedResponse (octets : Octets) : Prop :=
  ∃ c, octets[2]? = some c ∧ 128 ≤ c

theorem MessageKind.of?_eq_response_iff {octets : Octets} :
    of? octets = some .response ↔ MarkedResponse octets := by
  unfold of? MarkedResponse
  split
  next c _ =>
    rw [List.getElem?_cons_succ, List.getElem?_cons_succ, List.getElem?_cons_zero]
    by_cases hc : 128 ≤ c
    · simp [hc]
    · simp [hc]
  next hshort =>
    constructor
    · intro h
      cases h
    · rintro ⟨c, hc, -⟩
      match octets, hc with
      | _ :: _ :: _ :: _, _ => exact absurd rfl (hshort _ _ _ _)

instance : DecidablePred MarkedResponse :=
  fun _ => decidable_of_iff _ MessageKind.of?_eq_response_iff

namespace Resolver

theorem messageId?_eq_none_iff {octets : Octets} :
    messageId? octets = none ↔ octets.length < 2 := by
  match octets with
  | [] => simp [messageId?]
  | [_] => simp [messageId?]
  | _ :: _ :: _ => simp [messageId?]

theorem take_of_messageId?_eq_some {octets : Octets} {id : UInt16}
    (h : messageId? octets = some id) :
    octets.take 2 = Octets.ofWord16 id := by
  match octets with
  | [] => cases h
  | [_] => cases h
  | high :: low :: _ =>
    cases h
    exact (Octets.ofWord16_value high low).symm

end Resolver

namespace Packet

/-- The first four octets of a message are the identifier and the control word of the packet it is
read as. -/
theorem take_four_of_ofOctets_eq_ok {octets : Octets} {packet : Packet}
    (h : ofOctets octets = .ok packet) :
    octets.take 4 = Octets.ofWord16 packet.header.id ++ Octets.ofWord16 packet.header.word := by
  obtain ⟨-, hheader, -, -, -, -⟩ := ofOctets_eq_ok_iff.mp h
  rw [Header.wire, List.append_assoc, List.append_assoc, List.append_assoc,
    Octets.standsAt_append_iff] at hheader
  exact hheader.1.take_drop

theorem take_of_ofOctets_eq_ok {octets : Octets} {packet : Packet}
    (h : ofOctets octets = .ok packet) :
    octets.take 2 = Octets.ofWord16 packet.header.id := by
  have htake : octets.take 2 = (octets.take 4).take 2 := by
    rw [List.take_take, Nat.min_eq_left (by decide)]
  rw [htake, take_four_of_ofOctets_eq_ok h]
  rfl

theorem take_wire (packet : Packet) : packet.wire.take 2 = Octets.ofWord16 packet.header.id :=
  rfl

/-! ## The packets of replies -/

/-- A packet without records can be written without loss as soon as it counts its entries. -/
theorem Counted.encodable_of_records_eq_nil {packet : Packet} (h : packet.Counted)
    (hrecords : packet.records = []) :
    packet.Encodable := by
  refine ⟨h, ?_, ?_⟩
  · rw [hrecords]
    exact List.forall_mem_nil _
  · rw [hrecords]
    exact List.forall_mem_nil _

end Packet

namespace Header

/-- The header of a reply: the identifier, the opcode and the wish for recursion of the request, the
offer of recursion and the code as given, and everything else clear. -/
def replyTo (request : Header) (recursionAvailable : Bool) (code : ResponseCode) : Header where
  id := request.id
  control :=
    { flags :=
        { response := true
          recursionDesired := request.flags.recursionDesired
          recursionAvailable }
      opcode := request.control.opcode
      responseCode := Control.lowFour code.code.toNat }

end Header

namespace Resolver

theorem malformedReply_encodable (id : UInt16) : (malformedReply id).Encodable :=
  Packet.Counted.encodable_of_records_eq_nil ⟨rfl, rfl, rfl, rfl⟩ rfl

theorem wire_malformedReply (id : UInt16) :
    (malformedReply id).wire = Octets.ofWord16 id ++ [0x80, 0x01, 0, 0, 0, 0, 0, 0, 0, 0] := by
  have hword : Octets.ofWord16 (malformedReply id).header.word = [0x80, 0x01] := by
    change Octets.ofWord16 (Control.word
      { flags := { response := true }, responseCode := Control.lowFour 1 }) = _
    decide
  have hzero : Octets.ofWord16 0 = [0, 0] := by decide
  change Octets.ofWord16 id ++ Octets.ofWord16 (malformedReply id).header.word ++
    Octets.ofWord16 0 ++ Octets.ofWord16 0 ++ Octets.ofWord16 0 ++ Octets.ofWord16 0 ++ [] ++ [] = _
  rw [hword, hzero]
  rfl

theorem respond_encodable (request : Packet) (code : ResponseCode) :
    (request.respond code).Encodable :=
  Packet.Counted.encodable_of_records_eq_nil ⟨rfl, rfl, rfl, rfl⟩ rfl

/-- The four bits of an opcode survive being copied. -/
theorem respond_eq (request : Packet) (code : ResponseCode) :
    request.respond code = { header := request.header.replyTo false code } := by
  have hopcode :
      Control.lowFour request.header.opcode.code.toNat = request.header.control.opcode := by
    apply Fin.ext
    have hlt := request.header.control.opcode.isLt
    rw [Control.val_lowFour, Header.opcode, UInt8.toNat_ofNat']
    omega
  rw [Packet.respond, Header.replyTo, ← hopcode]
  rfl

/-- The packet that answers a question of a request with some records. -/
def answerPacket (request : Packet) (question : Question) (answers : List Record) : Packet where
  header :=
    { request.header.replyTo true (if answers = [] then .nameError else .noError) with
      questionCount := 1
      answerCount := UInt16.ofNat answers.length }
  questions := [question]
  answers := answers

theorem answerReply_eq (request : Packet) (question : Question) (answers : List Record) :
    answerReply request question answers = answerPacket request question answers := by
  have hcount : 0 + UInt16.ofNat answers.length = UInt16.ofNat answers.length :=
    UInt16.zero_add _
  rw [answerReply, respond_eq, answerPacket]
  simp only [Packet.addQuestion, Packet.addAnswers, Header.setRecursionAvailable, Header.replyTo,
    hcount, List.isEmpty_iff, List.nil_append]
  rfl

/-- Whatever a name resolves to fits into a reply. -/
theorem answerPacket_encodable (request : Packet) (question : Question) {answers : List Record}
    (h : answers ≠ [] → AnswerSection answers) :
    (answerPacket request question answers).Encodable := by
  have hrecords : (answerPacket request question answers).records = answers := by
    rw [Packet.records, answerPacket, List.append_nil, List.append_nil]
  have hanswers : answers.length ≤ 65535 ∧
      ∀ record ∈ answers, record.data.Canonical ∧ record.data.Fits := by
    by_cases hempty : answers = []
    · rw [hempty]
      exact ⟨Nat.zero_le _, List.forall_mem_nil _⟩
    · exact ⟨(h hempty).length_le, (h hempty).canonical_and_fits⟩
  obtain ⟨hlength, hdata⟩ := hanswers
  refine ⟨⟨rfl, ?_, rfl, rfl⟩, ?_, ?_⟩
  · exact UInt16.toNat_ofNat_of_lt' (Nat.lt_succ_of_le hlength)
  · rw [hrecords]
    exact fun record hrecord => (hdata record hrecord).1
  · rw [hrecords]
    exact fun record hrecord => (hdata record hrecord).2

/-! ## What handling answers -/

/-- What the packet holds that replies to some octets, given what each question resolves to. -/
inductive ReplyContent (resolved : Question → List Record) (octets : Octets) : Packet → Prop where
  | malformed {error : DecodeError} {packet : Packet} :
      Packet.ofOctets octets = .error error →
      packet.wire = octets.take 2 ++ [0x80, 0x01, 0, 0, 0, 0, 0, 0, 0, 0] →
      ReplyContent resolved octets packet
  | noQuestion {request : Packet} :
      Packet.ofOctets octets = .ok request → request.questions = [] →
      ReplyContent resolved octets { header := request.header.replyTo false .formatError }
  | answer {request : Packet} {question : Question} {others : List Question} :
      Packet.ofOctets octets = .ok request → request.questions = question :: others →
      ReplyContent resolved octets (answerPacket request question (resolved question))

/-- The packet is the reply to some octets: it can be read, is marked as a response, and has the
identifier, the counts and the content that it should have. -/
structure ReplyTo (resolved : Question → List Record) (octets : Octets) (packet : Packet) :
    Prop where
  reads : Packet.ofOctets packet.wire = .ok packet
  response : packet.header.flags.response = true
  id : packet.wire.take 2 = octets.take 2
  counted : packet.Counted
  content : ReplyContent resolved octets packet

theorem replyTo_of_encodable {resolved : Question → List Record} {octets : Octets}
    {packet : Packet} (hencodable : packet.Encodable)
    (hresponse : packet.header.flags.response = true)
    (hid : octets.take 2 = Octets.ofWord16 packet.header.id)
    (hcontent : ReplyContent resolved octets packet) :
    ReplyTo resolved octets packet where
  reads := hencodable.ofOctets_wire
  response := hresponse
  id := by rw [hid, Packet.take_wire]
  counted := hencodable.counted
  content := hcontent

variable {σ : Type} {resolver : Resolver σ} {state : State σ}

/-- What a question resolves to in a state. -/
def resolved (resolver : Resolver σ) (state : State σ) (question : Question) : List Record :=
  (resolver.resolve question.name question.type 0 state).1

/-- A message that holds no identifier is no packet either. -/
theorem handle_of_length_lt {message : Message} (hmark : ¬MarkedResponse message.data)
    (hlength : message.data.length < 2) :
    resolver.handle message = (return .error (.tooShort message.data.length)) := by
  rw [← MessageKind.of?_eq_response_iff] at hmark
  cases hread : Packet.ofOctets message.data with
  | error error => exact handle_of_tooShort hmark hread (messageId?_eq_none_iff.mpr hlength)
  | ok request =>
    have htake := congrArg List.length (Packet.take_of_ofOctets_eq_ok hread)
    rw [List.length_take, Octets.length_ofWord16] at htake
    omega

theorem handle_eq_of_tooShort {message : Message} (hmark : ¬MarkedResponse message.data)
    (hlength : message.data.length < 2) :
    (resolver.handle message state).1 = .error (.tooShort message.data.length) := by
  rw [handle_of_length_lt hmark hlength]
  rfl

theorem handle_eq_of_noQuestion {message : Message} {request : Packet}
    (hmark : ¬MarkedResponse message.data) (hread : Packet.ofOctets message.data = .ok request)
    (hquestions : request.questions = []) :
    (resolver.handle message state).1 =
      .ok (some { message with data := (request.respond .formatError).wire }) := by
  rw [← MessageKind.of?_eq_response_iff] at hmark
  rw [handle_of_noQuestion hmark hread hquestions]
  rfl

theorem handle_eq_of_question {message : Message} {request : Packet} {question : Question}
    {others : List Question} (hmark : ¬MarkedResponse message.data)
    (hread : Packet.ofOctets message.data = .ok request)
    (hquestions : request.questions = question :: others) :
    (resolver.handle message state).1 = .ok (some { message with
      data := (answerReply request question (resolver.resolved state question)).wire }) := by
  rw [← MessageKind.of?_eq_response_iff] at hmark
  rw [handle_of_question hmark hread hquestions, resolved,
    ← resolve_note resolver (.request request.header.id message.peer question)]
  rfl

theorem exists_handle_eq (hreachable : resolver.Reachable state) {message : Message}
    (hmark : ¬MarkedResponse message.data) (hlength : 2 ≤ message.data.length) :
    ∃ packet : Packet,
      (resolver.handle message state).1 = .ok (some { message with data := packet.wire }) ∧
        ReplyTo (resolver.resolved state) message.data packet := by
  have hkind := mt MessageKind.of?_eq_response_iff.mp hmark
  cases hread : Packet.ofOctets message.data with
  | error error =>
    cases hid : messageId? message.data with
    | none => exact absurd (messageId?_eq_none_iff.mp hid) (Nat.not_lt.mpr hlength)
    | some id =>
      have htake := take_of_messageId?_eq_some hid
      have hencodable := malformedReply_encodable id
      refine ⟨malformedReply id, ?_, replyTo_of_encodable hencodable rfl htake ?_⟩
      · rw [handle_of_malformed hkind hread hid]
        rfl
      · refine .malformed hread ?_
        rw [wire_malformedReply, htake]
  | ok request =>
    have htake := Packet.take_of_ofOctets_eq_ok hread
    cases hquestions : request.questions with
    | nil =>
      have hencodable := respond_encodable request .formatError
      refine ⟨request.respond .formatError, ?_, replyTo_of_encodable hencodable rfl htake ?_⟩
      · exact handle_eq_of_noQuestion hmark hread hquestions
      · rw [respond_eq]
        exact .noQuestion hread hquestions
    | cons question others =>
      have hencodable := answerPacket_encodable request question
        (hreachable.answerSection question.name question.type 0)
      refine ⟨_, ?_, replyTo_of_encodable hencodable rfl htake (.answer hread hquestions)⟩
      rw [handle_eq_of_question hmark hread hquestions, answerReply_eq]
      rfl

/-- Two requests look alike to the resolver: they agree in identifier, opcode, wish for recursion
and first question. -/
structure Alike (a b : Packet) : Prop where
  id : a.header.id = b.header.id
  opcode : a.header.opcode = b.header.opcode
  recursionDesired : a.header.flags.recursionDesired = b.header.flags.recursionDesired
  question : a.questions.head? = b.questions.head?

theorem Alike.respond_eq {a b : Packet} (h : Alike a b) (code : ResponseCode) :
    a.respond code = b.respond code := by
  simp only [Packet.respond, h.id, h.opcode, h.recursionDesired]

theorem Alike.answerReply_eq {a b : Packet} (h : Alike a b) (question : Question)
    (answers : List Record) :
    answerReply a question answers = answerReply b question answers := by
  simp only [answerReply, h.respond_eq]

theorem exists_octets_of_alike {message other : Message} {a b : Packet}
    (hmark : ¬MarkedResponse message.data) (hmark' : ¬MarkedResponse other.data)
    (hread : Packet.ofOctets message.data = .ok a) (hread' : Packet.ofOctets other.data = .ok b)
    (h : Alike a b) :
    ∃ octets, (resolver.handle message state).1 = .ok (some { message with data := octets }) ∧
      (resolver.handle other state).1 = .ok (some { other with data := octets }) := by
  cases ha : a.questions with
  | nil =>
    have hb : b.questions = [] := by
      rw [← List.head?_eq_none_iff, ← h.question, ha]
      rfl
    refine ⟨_, handle_eq_of_noQuestion hmark hread ha, ?_⟩
    rw [h.respond_eq]
    exact handle_eq_of_noQuestion hmark' hread' hb
  | cons question others =>
    obtain ⟨others', hb⟩ : ∃ others', b.questions = question :: others' := by
      rw [← List.head?_eq_some_iff, ← h.question, ha]
      rfl
    refine ⟨_, handle_eq_of_question hmark hread ha, ?_⟩
    rw [h.answerReply_eq]
    exact handle_eq_of_question hmark' hread' hb

/-- What handling answers in every reachable state, over any network.  A message that is marked as a
response gets no reply, and one too short for an identifier is an error.  Any other gets its reply,
and requests that look alike get the same octets, whoever sent them. -/
theorem handle_answer (hreachable : resolver.Reachable state) (message : Message) :
    (MarkedResponse message.data → (resolver.handle message state).1 = .ok none) ∧
      (¬MarkedResponse message.data → message.data.length < 2 →
        (resolver.handle message state).1 = .error (.tooShort message.data.length)) ∧
      (¬MarkedResponse message.data → 2 ≤ message.data.length →
        ∃ packet : Packet,
          (resolver.handle message state).1 = .ok (some { message with data := packet.wire }) ∧
            ReplyTo (resolver.resolved state) message.data packet) ∧
      ∀ (other : Message) (a b : Packet), ¬MarkedResponse message.data →
        ¬MarkedResponse other.data → Packet.ofOctets message.data = .ok a →
          Packet.ofOctets other.data = .ok b → Alike a b →
            ∃ octets,
              (resolver.handle message state).1 = .ok (some { message with data := octets }) ∧
                (resolver.handle other state).1 = .ok (some { other with data := octets }) := by
  refine ⟨?_, ?_, ?_, ?_⟩
  · intro hmark
    rw [handle_of_response (MessageKind.of?_eq_response_iff.mpr hmark)]
    rfl
  · intro hmark hlength
    exact handle_eq_of_tooShort hmark hlength
  · intro hmark hlength
    exact exists_handle_eq hreachable hmark hlength
  · intro other a b hmark hmark' hread hread' halike
    exact exists_octets_of_alike hmark hmark' hread hread' halike

/-- A question about the address of `y.x`. -/
def hostQuestion : Question :=
  ⟨Packet.hostName, .a, .internet⟩

/-- What every server replies that knows the address of `y.x`. -/
def hostReply : Packet :=
  (Packet.empty 5).addAnswer (.ofData Packet.hostName 60 (.a ⟨192, 0, 2, 1⟩))

/-- A resolver with one root, which knows the address of `y.x`. -/
def hostResolver : Resolver Unit where
  config := { cacheCapacity := ⟨1, Nat.one_pos⟩, roots := [.v4 ⟨192, 0, 2, 53⟩ dnsPort] }
  network := fun _ _ => pure (.ok hostReply.wire)
  ids := fun _ => 5
  starts := fun _ => 0
  clock := fun _ => 0

/-- A client asks for the address of `y.x`. -/
def hostMessage : Message where
  data := ((Packet.query 7).addQuestion hostQuestion).wire
  peer := .v4 ⟨192, 0, 2, 7⟩ 5353
  transport := .udp
  source := 3

theorem ofOctets_wire_hostReply : Packet.ofOctets hostReply.wire = .ok hostReply :=
  Packet.ofOctets_wire_addAnswer (.a _ _ _) (by decide) 5

theorem search_hostResolver (server : SocketAddress) (state : State Unit) :
    hostResolver.search Packet.hostName .a maxQueries [server] state =
      (hostReply.answers, (hostResolver.ask server Packet.hostName .a state).2) := by
  have hask : (hostResolver.ask server Packet.hostName .a state).1 = .ok hostReply := by
    change acceptReply 5 (.ok hostReply.wire) = _
    rw [acceptReply, ofOctets_wire_hostReply]
    rfl
  rw [maxQueries, search, bind_apply, hask]
  rfl

theorem resolved_hostQuestion :
    hostResolver.resolved (hostResolver.initial ()) hostQuestion = hostReply.answers := by
  have hroots (state : State Unit) :
      (hostResolver.rootCandidates state).1 = [.v4 ⟨192, 0, 2, 53⟩ dnsPort] :=
    rfl
  rw [resolved, resolve_of_le (Nat.zero_le _)]
  -- The cache is empty at first.
  change (hostResolver.resolveAfresh Packet.hostName .a 0 _).1 = _
  rw [resolveAfresh, bind_apply, bind_apply, bind_apply, hroots, search_hostResolver]
  rfl

theorem handle_answer_hostMessage :
    ∃ packet : Packet,
      (hostResolver.handle hostMessage (hostResolver.initial ())).1 =
          .ok (some { hostMessage with data := packet.wire }) ∧
        ReplyTo (hostResolver.resolved (hostResolver.initial ())) hostMessage.data packet ∧
        packet.answers = hostReply.answers := by
  have hread : Packet.ofOctets hostMessage.data =
      .ok ((Packet.query 7).addQuestion hostQuestion) :=
    Packet.Encodable.ofOctets_wire
      (Packet.Counted.encodable_of_records_eq_nil ⟨rfl, rfl, rfl, rfl⟩ rfl)
  obtain ⟨packet, hhandle, hreply⟩ :=
    (handle_answer (.initial ()) hostMessage).2.2.1 (by decide) (by decide)
  refine ⟨packet, hhandle, hreply, ?_⟩
  cases hreply.content with
  | malformed herror =>
    rw [hread] at herror
    cases herror
  | noQuestion hrequest hnone =>
    rw [hread] at hrequest
    cases hrequest
    cases hnone
  | answer hrequest hquestions =>
    rw [hread] at hrequest
    cases hrequest
    cases hquestions
    exact resolved_hostQuestion

end Resolver
end DnsResolver
