import CompatRegistry.Canon.Lengths
import CompatRegistry.Net.Server
import CompatRegistry.Net.WireEvidence
import CompatRegistry.Net.WireRule

/-! The client of a coordinator. A call frames a request, sends it and waits for one
frame; an answer of the type Error makes it fail with the text in it. What a call takes
from any other answer it takes field by field, and keeps what it had where a field is
missing. -/

namespace CompatRegistry

open Foundation Canon

/-! ### Requests -/

def registerSourceRequest (source scope : Bytes) : NetMessage where
  type := .declared .registerSource
  payload := ofEntries [(1, .str source), (2, .str scope)]

def registerProfileRequest (source : Bytes) (bootId : Uuid) (sourceGen epoch : UInt64) (profile : Canon)
    (kind : Enum8 ProfileKind) (domain : Bytes) : NetMessage where
  type := .declared .registerProfile
  payload := ofEntries [(1, .str source), (2, .uuid bootId), (3, .uint sourceGen), (4, .str domain),
    (5, profile.forced), (6, .uint kind.toUInt64), (kEpochTag, .uint epoch)] (by simp [kEpochTag])

/-- The request of `query_pair` and that of `query_requirement`. -/
def queryRequestOf (requirement : Bool) (epoch : UInt64) (left right : Uuid) : NetMessage where
  type := .declared (if requirement then .queryRequirement else .queryPair)
  payload := ofEntries [(1, .uuid left), (2, .uuid right), (kEpochTag, .uint epoch)] (by simp [kEpochTag])

def invalidateRequest (source : Bytes) (bootId : Uuid) (sourceGen epoch : UInt64) (target : Uuid)
    (reason : Bytes) : NetMessage where
  type := .declared .invalidate
  payload := ofEntries [(1, .str source), (2, .uuid bootId), (3, .uint sourceGen), (4, .uuid target),
    (5, .str reason), (kEpochTag, .uint epoch)] (by simp [kEpochTag])

/-- The request of `snapshot` and that of `shutdown`. -/
def emptyRequest (type : MsgType) : NetMessage where
  type := .declared type
  payload := .record []

/-! ### Calls -/

/-- `RegistryClient`: its connection, if there is one, and the epoch it has learned. -/
structure RegistryClient where
  socket : Option Socket := none
  epoch : UInt64 := 0

namespace RegistryClient

/-- A call returns true with what it reads from the answer, or false with an error text. -/
abbrev CallResult (α : Type) := Result (Except Bytes α) × RegistryClient

/-- What a call makes of what it received. -/
def outcomeOf : Received → Result (Except Bytes NetMessage)
  | .failed err => .ok (.error err)
  | .undefined => .error .outOfRange
  | .message response =>
    if response.type = .declared .error then .ok (.error (response.fieldStr 1)) else .ok (.ok response)

/-- The first half of `send`: the request goes out. -/
def ask (request : NetMessage) (c : RegistryClient) : CallResult Unit :=
  match c.socket with
  | none => (.ok (.error (ascii "not connected")), c)
  | some socket =>
    match frameMessage request.type request.payload with
    | .error e => (.error e, c)
    | .ok frame =>
      let (ok, socket) := socket.sendAll frame
      (.ok (if ok then .ok () else .error (ascii "send failed")), { c with socket := some socket })

/-- The second half: one frame comes back. The client keeps its socket, whatever comes. -/
def hear (c : RegistryClient) : Received × RegistryClient :=
  match c.socket with
  | none => (.failed (ascii "not connected"), c)
  | some socket =>
    let (received, socket) := socket.recvFrame
    (received, { c with socket := some socket })

def send (request : NetMessage) (c : RegistryClient) : CallResult NetMessage :=
  match c.ask request with
  | (.error e, c) => (.error e, c)
  | (.ok (.error err), c) => (.ok (.error err), c)
  | (.ok (.ok ()), c) => let (received, c) := c.hear; (outcomeOf received, c)

/-- Go on with the answer. -/
def answered {α : Type} (call : CallResult NetMessage) (read : NetMessage → RegistryClient → α × RegistryClient) :
    CallResult α :=
  match call with
  | (.error e, c) => (.error e, c)
  | (.ok (.error err), c) => (.ok (.error err), c)
  | (.ok (.ok response), c) => let (a, c) := read response c; (.ok (.ok a), c)

/-- `boot_id` is an output argument; the epoch is the one in the answer, or zero. -/
def registerSource (source scope : Bytes) (bootId : Uuid) (c : RegistryClient) : CallResult Uuid :=
  answered (c.send (registerSourceRequest source scope)) fun response c =>
    (fieldOr uuid? response.payload 1 bootId, { c with epoch := fieldOr uint? response.payload 2 0 })

def registerProfile (source : Bytes) (bootId : Uuid) (sourceGen : UInt64) (profile : Canon)
    (kind : Enum8 ProfileKind) (domain : Bytes) (profileId : Uuid) (c : RegistryClient) : CallResult Uuid :=
  answered (c.send (registerProfileRequest source bootId sourceGen c.epoch profile kind domain)) fun response c =>
    (fieldOr uuid? response.payload 1 profileId, c)

def registerRule (source : Bytes) (bootId : Uuid) (sourceGen : UInt64) (rule : CompatibilityRule)
    (c : RegistryClient) : CallResult Unit :=
  answered (c.send (registerRuleRequest source bootId sourceGen c.epoch rule)) fun _ c => ((), c)

def registerEvidence (source : Bytes) (bootId : Uuid) (sourceGen : UInt64) (ev : EvidenceRecord)
    (c : RegistryClient) : CallResult Unit :=
  answered (c.send (registerEvidenceRequest source bootId sourceGen c.epoch ev)) fun _ c => ((), c)

/-- What `query_pair` takes from the answer; `query_requirement` leaves the rule and the
text of the decision as they were. -/
def readDecision (requirement : Bool) (left right : Uuid) (dec : CompatibilityDecision) (response : NetMessage) :
    CompatibilityDecision :=
  let dec := { dec with
    left, right
    outcome := Enum8.cast (fieldOr uint? response.payload 1 0)
    decisionId := fieldOr uuid? response.payload 2 dec.decisionId }
  if requirement then dec
  else { dec with
    ruleId := fieldOr uuid? response.payload 3 dec.ruleId
    explanation := fieldOr str? response.payload 4 dec.explanation }

def query (requirement : Bool) (left right : Uuid) (dec : CompatibilityDecision) (c : RegistryClient) :
    CallResult CompatibilityDecision :=
  answered (c.send (queryRequestOf requirement c.epoch left right)) fun response c =>
    (readDecision requirement left right dec response, c)

def queryPair (left right : Uuid) (dec : CompatibilityDecision) (c : RegistryClient) :
    CallResult CompatibilityDecision := c.query false left right dec

def queryRequirement (candidate requirement : Uuid) (dec : CompatibilityDecision) (c : RegistryClient) :
    CallResult CompatibilityDecision := c.query true candidate requirement dec

def invalidate (source : Bytes) (bootId : Uuid) (sourceGen : UInt64) (target : Uuid) (reason : Bytes)
    (c : RegistryClient) : CallResult Unit :=
  answered (c.send (invalidateRequest source bootId sourceGen c.epoch target reason)) fun _ c => ((), c)

def snapshot (c : RegistryClient) : CallResult Unit :=
  answered (c.send (emptyRequest .snapshot)) fun _ c => ((), c)

def shutdown (c : RegistryClient) : CallResult Unit :=
  answered (c.send (emptyRequest .shutdown)) fun _ c => ((), c)

end RegistryClient

/-! ### One exchange -/

namespace RegistryClient

/-- What the client sends is the next to arrive at the server, and what the server answers
is the next to arrive at the client. Both sides accept what is sent to them. -/
structure Exchange (seeds : ℕ → Uuid) (request : NetMessage) (c : RegistryClient) (socket : Socket)
    (s : Server) (near : Socket) : Prop where
  connected : c.socket = some near
  accepts : ∀ i, 0 < near.room i
  answers : ∀ i, 0 < socket.room i
  up : ∃ more, socket.arriving = (near.sendAll request.framed).2.sent.drop near.sent.length ++ more
  down : ∃ more, near.arriving = (Server.turn seeds socket s).2.1.sent.drop socket.sent.length ++ more

theorem ask_connected {c : RegistryClient} {near : Socket} (h : c.socket = some near) {request : NetMessage}
    (hrequest : request.payload.WF) : c.ask request =
      (.ok (if (near.sendAll request.framed).1 then .ok () else .error (ascii "send failed")),
        { c with socket := some (near.sendAll request.framed).2 }) := by
  unfold ask
  rw [h]
  simp only [frameMessage_of_wf hrequest]

theorem hear_connected {c : RegistryClient} {near : Socket} (h : c.socket = some near) :
    c.hear = (near.recvFrame.1, { c with socket := some near.recvFrame.2 }) := by
  unfold hear
  rw [h]

section Exchange
variable {seeds : ℕ → Uuid} {request : NetMessage} {c : RegistryClient} {socket near : Socket} {s : Server}
  {out : Bool × NetMessage}

/-- The server handles the request, and the call makes of its answer what it makes of a message. -/
theorem send_exchange (h : Exchange seeds request c socket s near) (hrequest : request.Receivable)
    (hok : (Coordinator.handleRequest (seeds s.handled) request s.coordinator).1 = .ok out)
    (hanswer : (Server.answerOf out).Receivable) :
    (c.send request).1 = outcomeOf (.message (Server.answerOf out)) ∧
      (c.send request).2.epoch = c.epoch ∧
      (Server.turn seeds socket s).2.2 =
        ⟨(Coordinator.handleRequest (seeds s.handled) request s.coordinator).2, s.handled + 1⟩ := by
  obtain ⟨hall, -⟩ := near.sendAll_of_pos hrequest.framed_lt h.accepts
  obtain ⟨written, hwritten, -, hfull, harriving⟩ := near.sendAll_cases request.framed
  rw [hfull.mp hall] at hwritten
  obtain ⟨more, hup⟩ := h.up
  rw [hwritten, List.drop_left] at hup
  obtain ⟨-, -, -, hsent, hstate⟩ := Server.turn_answers hrequest hup hok hanswer.framed_lt h.answers
  obtain ⟨more', hdown⟩ := h.down
  rw [hsent, List.drop_left, ← harriving] at hdown
  have hrecv : (near.sendAll request.framed).2.recvFrame.1 = .message (Server.answerOf out) :=
    Socket.recvFrame_eq_message.mpr ⟨hanswer, more', hdown.symm⟩
  have hask := ask_connected h.connected hrequest.wf
  rw [hall, if_pos rfl] at hask
  have hhear := hear_connected (c := { c with socket := some (near.sendAll request.framed).2 }) rfl
  rw [hrecv] at hhear
  have hsend : c.send request = (outcomeOf (.message (Server.answerOf out)),
      { c with socket := some (near.sendAll request.framed).2.recvFrame.2 }) := by
    unfold send
    rw [hask]
    simp only [hhear]
  rw [hsend]
  exact ⟨rfl, rfl, hstate⟩

/-- There are connections over which a request and its answer go as they are sent. -/
theorem exchange_exists (seeds : ℕ → Uuid) (hrequest : request.Receivable) (epoch : UInt64) (s : Server) :
    ∃ near socket, Exchange seeds request ⟨some near, epoch⟩ socket s near := by
  let socket : Socket := { incoming := [request.framed], room := fun _ => 1 }
  let near : Socket := { incoming := [(Server.turn seeds socket s).2.1.sent], room := fun _ => 1 }
  refine ⟨near, socket, rfl, fun _ => Nat.one_pos, fun _ => Nat.one_pos, ⟨[], ?_⟩, ⟨[], ?_⟩⟩
  · obtain ⟨hall, -⟩ := near.sendAll_of_pos hrequest.framed_lt fun _ => Nat.one_pos
    obtain ⟨written, hwritten, -, hfull, -⟩ := near.sendAll_cases request.framed
    rw [hwritten, hfull.mp hall, List.drop_left, List.append_nil]
    exact Pieces.arriving_singleton request.framed
  · rw [List.append_nil]
    exact Pieces.arriving_singleton _

end Exchange

/-! ### Queries -/

theorem queryRequestOf_receivable (requirement : Bool) (epoch : UInt64) (left right : Uuid) :
    (queryRequestOf requirement epoch left right).Receivable where
  wf := ofEntries_wf (by simp [kEpochTag]) (by simp [WFRecord, WF])
  short := by
    rw [Canon.encoding_length]
    norm_num [queryRequestOf, ofEntries, payloadSize, payloadSizeEntries, maxPayload]

theorem encDecisionWire_size (d : CompatibilityDecision) :
    (encDecisionWire d).encoding.length = d.explanation.length + 86 := by
  rw [Canon.encoding_length]
  simp only [encDecisionWire, ofEntries, payloadSize, payloadSizeEntries]
  omega

/-- What the decision on the wire is read back to. -/
theorem readDecision_encDecisionWire (requirement : Bool) (left right : Uuid) (dec d : CompatibilityDecision) :
    readDecision requirement left right dec { type := .declared .decision, payload := encDecisionWire d } =
      if requirement then { dec with left, right, outcome := d.outcome, decisionId := d.decisionId }
      else { dec with
        left, right, outcome := d.outcome, decisionId := d.decisionId, ruleId := d.ruleId
        explanation := d.explanation } := by
  have houtcome : Enum8.cast (fieldOr uint? (encDecisionWire d) 1 0) = d.outcome :=
    Enum8.cast_toUInt64 d.outcome
  unfold readDecision
  rw [houtcome]
  rfl

theorem handleRequest_query (seed : Uuid) (requirement : Bool) (epoch : UInt64) (left right : Uuid)
    (s : Coordinator) :
    Coordinator.handleRequest seed (queryRequestOf requirement epoch left right) s =
      Coordinator.query requirement (queryRequestOf requirement epoch left right) s := by
  cases requirement <;> rfl

theorem handleRequest_of_evaluated (seed : Uuid) {requirement : Bool} (epoch : UInt64) {left right : Uuid}
    {s : Coordinator} {d : CompatibilityDecision}
    (hd : Registry.evaluateLocked s.registry left right requirement = .ok d) :
    Coordinator.handleRequest seed (queryRequestOf requirement epoch left right) s =
      (.ok (true, { type := .declared .decision, payload := encDecisionWire d }),
        { s with registry := { s.registry with decisions := s.registry.decisions.insert d.digest d } }) := by
  have hevaluate : Registry.evaluateWith requirement left right s.registry =
      (.ok d, { s.registry with decisions := s.registry.decisions.insert d.digest d }) := by
    unfold Registry.evaluateWith
    rw [hd]
  rw [handleRequest_query]
  change Coordinator.andThen (Registry.evaluateWith requirement left right) _ s = _
  unfold Coordinator.andThen
  rw [hevaluate]

/-- A query through the client is an evaluation on the registry of the server. The client gets
the outcome and the id of the decision, and from `query_pair` also its rule and its text. -/
theorem query_exchange {seeds : ℕ → Uuid} {requirement : Bool} {left right : Uuid} {c : RegistryClient}
    {socket near : Socket} {s : Server}
    (h : Exchange seeds (queryRequestOf requirement c.epoch left right) c socket s near)
    {d : CompatibilityDecision}
    (hd : Registry.evaluateLocked s.coordinator.registry left right requirement = .ok d)
    (hshort : d.explanation.length + 86 ≤ maxPayload) (dec : CompatibilityDecision) :
    (c.query requirement left right dec).1 = .ok (.ok
        (if requirement then { dec with left, right, outcome := d.outcome, decisionId := d.decisionId }
        else { dec with
          left, right, outcome := d.outcome, decisionId := d.decisionId, ruleId := d.ruleId
          explanation := d.explanation })) ∧
      (Server.turn seeds socket s).2.2.coordinator = { s.coordinator with
        registry := { s.coordinator.registry with
          decisions := s.coordinator.registry.decisions.insert d.digest d } } := by
  have hcall := handleRequest_of_evaluated (seeds s.handled) c.epoch hd
  have hanswer : (Server.answerOf (true, { type := .declared .decision, payload := encDecisionWire d })).Receivable :=
    ⟨Server.encDecisionWire_wf d, (encDecisionWire_size d).trans_le hshort⟩
  obtain ⟨hresult, -, hstate⟩ := send_exchange h (queryRequestOf_receivable _ _ _ _)
    (congrArg Prod.fst hcall) hanswer
  rw [hcall] at hstate
  refine ⟨?_, congrArg Server.coordinator hstate⟩
  have hread : outcomeOf
      (.message (Server.answerOf (true, { type := .declared .decision, payload := encDecisionWire d }))) =
      .ok (.ok { type := .declared .decision, payload := encDecisionWire d }) := rfl
  rw [hread] at hresult
  unfold query answered
  generalize c.send (queryRequestOf requirement c.epoch left right) = call at hresult
  obtain ⟨result, c'⟩ := call
  obtain rfl : result = _ := hresult
  simp only [readDecision_encDecisionWire]

/-- A server behind a source that has published two profiles and a rule for them. -/
def publishing : Server where
  coordinator := Coordinator.after Coordinator.published {}
  handled := 4

/-- The rule makes the two profiles compatible, and the decision has a short text. -/
theorem publishing_decides : ∃ d,
    Registry.evaluateLocked publishing.coordinator.registry (uuidOf 1) (uuidOf 2) false = .ok d ∧
      d.outcome = .declared .compatible ∧ d.explanation.length + 86 ≤ maxPayload := by
  have hdecided : (Registry.evaluateLocked publishing.coordinator.registry (uuidOf 1) (uuidOf 2) false).toOption.any
      (fun d => decide (d.outcome = .declared .compatible ∧ d.explanation.length + 86 ≤ maxPayload)) = true := by
    decide +kernel
  obtain ⟨d, hd, hfacts⟩ := (Option.any_eq_true ..).mp hdecided
  refine ⟨d, ?_, of_decide_eq_true hfacts⟩
  cases hresult : Registry.evaluateLocked publishing.coordinator.registry (uuidOf 1) (uuidOf 2) false with
  | error e =>
    rw [hresult] at hd
    cases hd
  | ok d' =>
    rw [hresult] at hd
    exact congrArg Except.ok (Option.some.inj hd)

/-- The source asks about the two. -/
theorem query_exchange_published :
    ∃ (near socket : Socket) (d : CompatibilityDecision),
      Registry.evaluateLocked publishing.coordinator.registry (uuidOf 1) (uuidOf 2) false = .ok d ∧
        d.outcome = .declared .compatible ∧
        ((RegistryClient.mk (some near) 1).query false (uuidOf 1) (uuidOf 2) {}).1 =
          .ok (.ok { ({} : CompatibilityDecision) with
            left := uuidOf 1, right := uuidOf 2, outcome := d.outcome, decisionId := d.decisionId
            ruleId := d.ruleId, explanation := d.explanation }) ∧
        (Server.turn (fun _ => Uuid.zero) socket publishing).2.2.coordinator = { publishing.coordinator with
          registry := { publishing.coordinator.registry with
            decisions := publishing.coordinator.registry.decisions.insert d.digest d } } := by
  obtain ⟨near, socket, hexchange⟩ := exchange_exists (fun _ => Uuid.zero)
    (queryRequestOf_receivable false 1 (uuidOf 1) (uuidOf 2)) 1 publishing
  obtain ⟨d, hd, houtcome, hshort⟩ := publishing_decides
  exact ⟨near, socket, d, hd, houtcome, query_exchange hexchange hd hshort {}⟩

end RegistryClient

end CompatRegistry
