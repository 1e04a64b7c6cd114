import CompatRegistry.Net.Authority
import CompatRegistry.Net.NoEscape
import CompatRegistry.Net.Socket
import CompatRegistry.Registry.Reachable

/-! The serving loop of the coordinator: connections one after another, and on each of
them frame after frame until it ends. Whatever bytes arrive, in whatever pieces, the
loop comes down to a sequence of handled messages: on each connection the frames up to
the first bytes that are none, unless something else ends it before. -/

namespace CompatRegistry

open Foundation Canon

/-- What a turn of the loop comes to: the next turn, the end of the connection, the end
of the server after a shutdown, or an exception that escapes from it. -/
inductive Turn where
  | goesOn
  | closed
  | stopped
  | escaped (e : Fault)
  deriving DecidableEq

/-- The coordinator behind the sockets, with the number of messages it has handled. The
identities that are drawn while it handles the next one are those of that number. -/
structure Server where
  coordinator : Coordinator := {}
  handled : ℕ := 0

namespace Server

/-- The message that is sent for what `handle_request` returned. -/
def answerOf : Bool × NetMessage → NetMessage
  | (true, response) => response
  | (false, _) => { type := .declared .error, payload := errRec (ascii "request failed") }

/-- One turn: a frame is received and handled, and the answer is sent. -/
def turn (seeds : ℕ → Uuid) (socket : Socket) (s : Server) : Turn × Socket × Server :=
  match socket.recvFrame with
  | (.failed _, socket) => (.closed, socket, s)
  | (.undefined, socket) => (.escaped .outOfRange, socket, s)
  | (.message msg, socket) =>
    match Coordinator.handleRequest (seeds s.handled) msg s.coordinator with
    | (.error e, coordinator) => (.escaped e, socket, ⟨coordinator, s.handled + 1⟩)
    | (.ok out, coordinator) =>
      match frameMessage (answerOf out).type (answerOf out).payload with
      | .error e => (.escaped e, socket, ⟨coordinator, s.handled + 1⟩)
      | .ok frame =>
        let (ok, socket) := socket.sendAll frame
        (if !ok then .closed else if msg.type = .declared .shutdown then .stopped else .goesOn,
          socket, ⟨coordinator, s.handled + 1⟩)

/-! ### What a handler answers -/

/-- The payload of what a call returns is well formed. -/
def AnswersWell (call : Result (Bool × NetMessage) × Coordinator) : Prop :=
  ∀ out, call.1 = .ok out → out.2.payload.WF

theorem errRec_wf (m : Bytes) : (errRec m).WF := ofEntries_wf _ (by simp [WFRecord, WF])

theorem ackRec_wf : ackRec.WF := ofEntries_wf _ (by simp [WFRecord])

theorem refuse_answersWell (m : String) (s : Coordinator) : AnswersWell (Coordinator.refuse m s) := by
  rintro out ⟨⟩
  exact errRec_wf _

theorem reply_answersWell {payload : Canon} (h : payload.WF) (s : Coordinator) :
    AnswersWell (Coordinator.reply payload s) := by
  rintro out ⟨⟩
  exact h

theorem andThen_answersWell {α : Type} (op : Step α) {next : α → Coordinator.Handler} {s : Coordinator}
    (h : ∀ a t, AnswersWell (next a t)) : AnswersWell (Coordinator.andThen op next s) := by
  obtain ⟨e, -, heq⟩ | ⟨a, -, heq⟩ := Coordinator.andThen_cases op next s
  · rw [heq]
    rintro out ⟨⟩
  · rw [heq]
    exact h a _

theorem acknowledge_answersWell {α : Type} (op : Step α) (msg : NetMessage) (s : Coordinator) :
    AnswersWell (Coordinator.acknowledge op msg s) := by
  cases hadm : Coordinator.notAdmitted msg s with
  | some m =>
    rw [Coordinator.acknowledge_of_some hadm]
    exact refuse_answersWell m s
  | none =>
    rw [Coordinator.acknowledge_of_none hadm]
    exact andThen_answersWell op fun _ => reply_answersWell ackRec_wf

theorem encDecisionWire_wf (d : CompatibilityDecision) : (encDecisionWire d).WF :=
  ofEntries_wf _ (by simp [WFRecord, WF])

theorem query_answersWell (requirement : Bool) (msg : NetMessage) (s : Coordinator) :
    AnswersWell (Coordinator.query requirement msg s) := by
  refine andThen_answersWell _ fun d t => ?_
  rintro out ⟨⟩
  exact encDecisionWire_wf d

theorem handleRequest_answersWell (seed : Uuid) (msg : NetMessage) (s : Coordinator) :
    AnswersWell (Coordinator.handleRequest seed msg s) := by
  unfold Coordinator.handleRequest
  cases msg.type with
  | undeclared raw hraw => exact refuse_answersWell _ s
  | declared type =>
    cases type with
    | registerSource =>
      simp only [Coordinator.registerSource]
      split_ifs
      · exact refuse_answersWell _ s
      · exact reply_answersWell (ofEntries_wf _ (by simp [WFRecord, WF])) _
    | registerProfile =>
      simp only [Coordinator.registerProfile]
      split
      · cases Coordinator.profileNotAdmitted msg s with
        | some m => exact refuse_answersWell m s
        | none =>
          refine andThen_answersWell _ fun pid t => reply_answersWell (ofEntries_wf _ ?_) _
          simp [WFRecord, WF]
      · exact refuse_answersWell _ s
    | registerRule => exact acknowledge_answersWell _ msg s
    | registerEvidence => exact acknowledge_answersWell _ msg s
    | queryPair => exact query_answersWell false msg s
    | queryRequirement => exact query_answersWell true msg s
    | invalidate => exact acknowledge_answersWell _ msg s
    | snapshot => exact andThen_answersWell _ fun bytes => reply_answersWell (ofEntries_wf _ (by simp [WFRecord, WF]))
    | shutdown => exact reply_answersWell ackRec_wf s
    | decision => exact refuse_answersWell _ s
    | ack => exact refuse_answersWell _ s
    | error => exact refuse_answersWell _ s

theorem answerOf_wf {out : Bool × NetMessage} (h : out.2.payload.WF) : (answerOf out).payload.WF := by
  obtain ⟨ok, response⟩ := out
  cases ok with
  | false => exact errRec_wf _
  | true => exact h

/-! ### A turn -/

/-- A message has been received and handled. What was sent is the front of the answer. -/
structure Handles (seeds : ℕ → Uuid) (socket : Socket) (s : Server) (msg : NetMessage) (rest : Bytes)
    (t : Turn × Socket × Server) : Prop where
  receivable : msg.Receivable
  arrived : socket.arriving = msg.framed ++ rest
  left : t.2.1.arriving = rest
  state : t.2.2 = ⟨(Coordinator.handleRequest (seeds s.handled) msg s.coordinator).2, s.handled + 1⟩
  ends : (∃ e, (Coordinator.handleRequest (seeds s.handled) msg s.coordinator).1 = .error e ∧
      t.1 = .escaped e ∧ t.2.1.sent = socket.sent) ∨
    ∃ out, (Coordinator.handleRequest (seeds s.handled) msg s.coordinator).1 = .ok out ∧
      ∃ written, t.2.1.sent = socket.sent ++ written ∧ written <+: (answerOf out).framed ∧
        (t.1 = .closed ∧ written ≠ (answerOf out).framed ∨ written = (answerOf out).framed ∧
          t.1 = if msg.type = .declared .shutdown then .stopped else .goesOn)

/-- A turn handles the next message or ends with the connection. -/
theorem turn_cases (seeds : ℕ → Uuid) (socket : Socket) (s : Server) :
    (((∃ err, (socket.recvFrame).1 = .failed err) ∧ (turn seeds socket s).1 = .closed ∨
        (socket.recvFrame).1 = .undefined ∧ (turn seeds socket s).1 = .escaped .outOfRange) ∧
      (turn seeds socket s).2.1.sent = socket.sent ∧ (turn seeds socket s).2.2 = s) ∨
    ∃ msg rest, Handles seeds socket s msg rest (turn seeds socket s) := by
  have hsent := (Socket.recvFrame_frame socket).2
  cases hrecv : socket.recvFrame.1 with
  | failed err =>
    have heq : turn seeds socket s = (.closed, socket.recvFrame.2, s) := by
      unfold turn
      rw [← Prod.mk.eta (p := socket.recvFrame), hrecv]
    rw [heq]
    exact .inl ⟨.inl ⟨⟨err, rfl⟩, rfl⟩, hsent, rfl⟩
  | undefined =>
    have heq : turn seeds socket s = (.escaped .outOfRange, socket.recvFrame.2, s) := by
      unfold turn
      rw [← Prod.mk.eta (p := socket.recvFrame), hrecv]
    rw [heq]
    exact .inl ⟨.inr ⟨rfl, rfl⟩, hsent, rfl⟩
  | message msg =>
    obtain ⟨hmsg, rest, hrest⟩ := Socket.recvFrame_eq_message.mp hrecv
    have hleft := Socket.recvFrame_rest hmsg hrest.symm
    refine .inr ⟨msg, rest, ?_⟩
    have hwell := handleRequest_answersWell (seeds s.handled) msg s.coordinator
    unfold turn
    rw [← Prod.mk.eta (p := socket.recvFrame), hrecv]
    generalize socket.recvFrame.2 = socket' at hsent hleft
    simp only
    rcases hcall : Coordinator.handleRequest (seeds s.handled) msg s.coordinator with ⟨result, coordinator⟩
    cases result with
    | error e => exact ⟨hmsg, hrest.symm, hleft, by rw [hcall], .inl ⟨e, by rw [hcall], rfl, hsent⟩⟩
    | ok out =>
      have hwf := answerOf_wf (hwell out (congrArg Prod.fst hcall))
      simp only [frameMessage_of_wf hwf]
      obtain ⟨written, hwritten, hfront, hall, hkeeps⟩ := socket'.sendAll_cases (answerOf out).framed
      generalize socket'.sendAll (answerOf out).framed = sending at hwritten hall hkeeps
      obtain ⟨ok, socket''⟩ := sending
      refine ⟨hmsg, hrest.symm, hkeeps.trans hleft, by rw [hcall],
        .inr ⟨out, by rw [hcall], written, hwritten.trans (by rw [hsent]), hfront, ?_⟩⟩
      cases ok with
      | false => exact .inl ⟨rfl, fun hwhole => Bool.noConfusion (hall.mpr hwhole)⟩
      | true => exact .inr ⟨hall.mp rfl, rfl⟩

/-- A message whose handler returns is answered in full, when the other side accepts the answer. -/
theorem turn_answers {seeds : ℕ → Uuid} {socket : Socket} {s : Server} {msg : NetMessage} {rest : Bytes}
    {out : Bool × NetMessage} (hmsg : msg.Receivable) (harrived : socket.arriving = msg.framed ++ rest)
    (hok : (Coordinator.handleRequest (seeds s.handled) msg s.coordinator).1 = .ok out)
    (hshort : (answerOf out).framed.length < 2 ^ 31) (hroom : ∀ i, 0 < socket.room i) :
    (turn seeds socket s).1 = (if msg.type = .declared .shutdown then .stopped else .goesOn) ∧
      (turn seeds socket s).2.1.arriving = rest ∧ (∀ i, 0 < (turn seeds socket s).2.1.room i) ∧
      (turn seeds socket s).2.1.sent = socket.sent ++ (answerOf out).framed ∧
      (turn seeds socket s).2.2 =
        ⟨(Coordinator.handleRequest (seeds s.handled) msg s.coordinator).2, s.handled + 1⟩ := by
  have hrecv : socket.recvFrame.1 = .message msg :=
    Socket.recvFrame_eq_message.mpr ⟨hmsg, rest, harrived.symm⟩
  have hleft := Socket.recvFrame_rest hmsg harrived
  obtain ⟨hkeeps, hsent⟩ := Socket.recvFrame_frame socket
  have hwf := answerOf_wf (handleRequest_answersWell (seeds s.handled) msg s.coordinator out hok)
  unfold turn
  rw [← Prod.mk.eta (p := socket.recvFrame), hrecv]
  generalize socket.recvFrame.2 = socket' at hleft hkeeps hsent
  simp only
  rw [← Prod.mk.eta (p := Coordinator.handleRequest (seeds s.handled) msg s.coordinator), hok]
  simp only [frameMessage_of_wf hwf]
  obtain ⟨hall, hroom'⟩ := socket'.sendAll_of_pos hshort (by rwa [hkeeps])
  obtain ⟨written, hwritten, -, hfull, harriving⟩ := socket'.sendAll_cases (answerOf out).framed
  rw [hfull.mp hall, hsent] at hwritten
  generalize socket'.sendAll (answerOf out).framed = sending at hall hroom' hwritten harriving
  obtain ⟨ok, socket''⟩ := sending
  obtain rfl : ok = true := hall
  exact ⟨rfl, harriving.trans hleft, hroom', hwritten, trivial⟩

/-! ### Connections -/

theorem turn_shrinks {seeds : ℕ → Uuid} {socket : Socket} {s : Server} (h : (turn seeds socket s).1 = .goesOn) :
    (turn seeds socket s).2.1.arriving.length < socket.arriving.length := by
  obtain ⟨⟨-, hclosed⟩ | ⟨-, hundefined⟩, -, -⟩ | ⟨msg, rest, hhandles⟩ := turn_cases seeds socket s
  · rw [hclosed] at h
    cases h
  · rw [hundefined] at h
    cases h
  · rw [hhandles.left, hhandles.arrived, List.length_append, msg.framed_length]
    omega

/-- One connection: turns until one of them does not go on. -/
def serve (seeds : ℕ → Uuid) (socket : Socket) (s : Server) : Turn × Socket × Server :=
  let t := turn seeds socket s
  if _h : t.1 = .goesOn then serve seeds t.2.1 t.2.2 else t
termination_by socket.arriving.length
decreasing_by exact turn_shrinks _h

/-- `CoordinatorServer::run`, given the connections that it accepts: one after another, until
there are no more or the server ends. -/
def run (seeds : ℕ → Uuid) : List Socket → Server → Turn × List Socket × Server
  | [], s => (.goesOn, [], s)
  | socket :: sockets, s =>
    let t := serve seeds socket s
    if t.1 = .closed then
      let u := run seeds sockets t.2.2
      (u.1, t.2.1 :: u.2.1, u.2.2)
    else (t.1, t.2.1 :: sockets, t.2.2)

/-! ### What is handled -/

/-- Messages with the identities that are drawn for them, from number `n` on. -/
def numbered (seeds : ℕ → Uuid) : ℕ → List NetMessage → List (Uuid × NetMessage)
  | _, [] => []
  | n, msg :: msgs => (seeds n, msg) :: numbered seeds (n + 1) msgs

/-- The server after it has handled some messages. -/
def afterAll (seeds : ℕ → Uuid) (msgs : List NetMessage) (s : Server) : Server :=
  ⟨Coordinator.after (numbered seeds s.handled msgs) s.coordinator, s.handled + msgs.length⟩

@[simp] theorem afterAll_nil (seeds : ℕ → Uuid) (s : Server) : afterAll seeds [] s = s := rfl

theorem afterAll_cons (seeds : ℕ → Uuid) (msg : NetMessage) (msgs : List NetMessage) (s : Server) :
    afterAll seeds (msg :: msgs) s =
      afterAll seeds msgs ⟨(Coordinator.handleRequest (seeds s.handled) msg s.coordinator).2, s.handled + 1⟩ := by
  simp only [afterAll, numbered, Coordinator.after_cons, List.length_cons, Server.mk.injEq, true_and]
  omega

theorem afterAll_append (seeds : ℕ → Uuid) (past msgs : List NetMessage) (s : Server) :
    afterAll seeds (past ++ msgs) s = afterAll seeds msgs (afterAll seeds past s) := by
  induction past generalizing s with
  | nil => rfl
  | cons msg past ih => rw [List.cons_append, afterAll_cons, afterAll_cons, ih]

/-- What is sent for each message, until an exception escapes. -/
def answers (seeds : ℕ → Uuid) : List NetMessage → Server → List NetMessage
  | [], _ => []
  | msg :: msgs, s =>
    let call := Coordinator.handleRequest (seeds s.handled) msg s.coordinator
    match call.1 with
    | .error _ => []
    | .ok out => answerOf out :: answers seeds msgs ⟨call.2, s.handled + 1⟩

def frames (msgs : List NetMessage) : Bytes := msgs.flatMap NetMessage.framed

/-- Why nothing more is handled on a connection behind these messages, of whose answers `written`
was sent: no frame follows, the client does not take the last answer in full, the last message is a
shutdown, or an exception escapes while it is handled. -/
inductive Ends (seeds : ℕ → Uuid) (s : Server) (rest written : Bytes) : List NetMessage → Turn → Prop
  | noFrame {msgs : List NetMessage} {turn : Turn} (none : ∀ msg : NetMessage, msg.Receivable → ¬ msg.framed <+: rest)
      (going : ∀ msg ∈ msgs, msg.type ≠ .declared .shutdown)
      (answered : (answers seeds msgs s).length = msgs.length) (sent : written = frames (answers seeds msgs s))
      (turn_eq : turn = .closed ∨ turn = .escaped .outOfRange) : Ends seeds s rest written msgs turn
  | untaken (past : List NetMessage) {msg : NetMessage} {out : Bool × NetMessage} {part : Bytes}
      (answered : (answers seeds past s).length = past.length)
      (returns : (Coordinator.handleRequest (seeds (s.handled + past.length)) msg
        (afterAll seeds past s).coordinator).1 = .ok out)
      (sent : written = frames (answers seeds past s) ++ part) (front : part <+: (answerOf out).framed)
      (cut : part ≠ (answerOf out).framed) : Ends seeds s rest written (past ++ [msg]) .closed
  | stopped (past : List NetMessage) {msg : NetMessage} (shutdown : msg.type = .declared .shutdown)
      (answered : (answers seeds (past ++ [msg]) s).length = (past ++ [msg]).length)
      (sent : written = frames (answers seeds (past ++ [msg]) s)) : Ends seeds s rest written (past ++ [msg]) .stopped
  | escaped (past : List NetMessage) {msg : NetMessage} {e : Fault}
      (answered : (answers seeds past s).length = past.length)
      (throws : (Coordinator.handleRequest (seeds (s.handled + past.length)) msg
        (afterAll seeds past s).coordinator).1 = .error e)
      (sent : written = frames (answers seeds past s)) : Ends seeds s rest written (past ++ [msg]) (.escaped e)

/-- One connection comes down to these messages: they are the frames at the front of what arrived,
as far as they go, handled in order and answered one by one. Only the last can be a shutdown. -/
structure Served (seeds : ℕ → Uuid) (socket : Socket) (s : Server) (msgs : List NetMessage)
    (t : Turn × Socket × Server) : Prop where
  receivable : ∀ msg ∈ msgs, msg.Receivable
  running : ∀ msg ∈ msgs.dropLast, msg.type ≠ .declared .shutdown
  state : t.2.2 = afterAll seeds msgs s
  ends : ∃ rest written, socket.arriving = frames msgs ++ rest ∧ t.2.1.sent = socket.sent ++ written ∧
    Ends seeds s rest written msgs t.1

section Serve
variable {seeds : ℕ → Uuid} {socket : Socket} {s : Server}

theorem answers_of_ok {msg : NetMessage} {out : Bool × NetMessage}
    (h : (Coordinator.handleRequest (seeds s.handled) msg s.coordinator).1 = .ok out) (msgs : List NetMessage) :
    answers seeds (msg :: msgs) s = answerOf out :: answers seeds msgs (afterAll seeds [msg] s) := by
  simp only [answers, h]
  rfl

/-- One more message in front. -/
theorem Ends.cons {rest written : Bytes} {msgs : List NetMessage} {turn : Turn} {msg : NetMessage}
    {out : Bool × NetMessage} (hok : (Coordinator.handleRequest (seeds s.handled) msg s.coordinator).1 = .ok out)
    (hother : msg.type ≠ .declared .shutdown) (h : Ends seeds (afterAll seeds [msg] s) rest written msgs turn) :
    Ends seeds s rest ((answerOf out).framed ++ written) (msg :: msgs) turn := by
  have hanswered : ∀ {past : List NetMessage}, (answers seeds past (afterAll seeds [msg] s)).length = past.length →
      (answers seeds (msg :: past) s).length = (msg :: past).length := by
    intro past hpast
    rw [answers_of_ok hok, List.length_cons, hpast, List.length_cons]
  have hframes : ∀ past : List NetMessage,
      (answerOf out).framed ++ frames (answers seeds past (afterAll seeds [msg] s)) =
      frames (answers seeds (msg :: past) s) := by
    intro past
    rw [answers_of_ok hok, frames, frames, List.flatMap_cons]
  have hstate : ∀ past : List NetMessage,
      afterAll seeds (msg :: past) s = afterAll seeds past (afterAll seeds [msg] s) :=
    fun past => afterAll_append seeds [msg] past s
  have hnumber : ∀ past : List NetMessage, (afterAll seeds [msg] s).handled + past.length =
      s.handled + (msg :: past).length := by
    intro past
    show s.handled + 1 + past.length = s.handled + (past.length + 1)
    omega
  cases h with
  | noFrame none going answered sent turn_eq =>
    refine .noFrame none (List.forall_mem_cons.mpr ⟨hother, going⟩) (hanswered answered) ?_ turn_eq
    rw [sent, hframes]
  | untaken past answered returns sent front cut =>
    refine .untaken (msg :: past) (hanswered answered) ?_ ?_ front cut
    · rw [hstate, ← hnumber]
      exact returns
    · rw [sent, ← List.append_assoc, hframes]
  | stopped past shutdown answered sent =>
    refine .stopped (msg :: past) shutdown (hanswered answered) ?_
    rw [sent, hframes]
    rfl
  | escaped past answered throws sent =>
    refine .escaped (msg :: past) (hanswered answered) ?_ ?_
    · rw [hstate, ← hnumber]
      exact throws
    · rw [sent, hframes]

end Serve

/-! ### All connections -/

/-- The server comes down to a session of messages on each of the connections, one session after
the other: on all of them, or up to the one on which the server ends. -/
structure Sessions (seeds : ℕ → Uuid) (sockets : List Socket) (s : Server) (sessions : List (List NetMessage))
    (u : Turn × List Socket × Server) : Prop where
  served : ∀ i < sessions.length, ∃ socket msgs t, sockets[i]? = some socket ∧ sessions[i]? = some msgs ∧
    u.2.1[i]? = some t.2.1 ∧ Served seeds socket (afterAll seeds (sessions.take i).flatten s) msgs t ∧
    t.1 = if i + 1 = sessions.length ∧ u.1 ≠ .goesOn then u.1 else .closed
  untouched : u.2.1.drop sessions.length = sockets.drop sessions.length
  state : u.2.2 = afterAll seeds sessions.flatten s
  left : u.1 = .goesOn ∧ sessions.length = sockets.length ∨ u.1 ≠ .goesOn ∧ u.1 ≠ .closed ∧ sessions ≠ []

end Server

/-! ### What the messages do -/

namespace Coordinator

/-- A call changes the registry by one public operation at most. -/
theorem Handled.reachable {seed : Uuid} {msg : NetMessage} {s t : Coordinator} (h : Handled seed msg s t)
    (hmsg : msg.payload.WF) (hs : s.registry.Reachable) : t.registry.Reachable := by
  cases h with
  | unchanged => exact hs
  | sourced => exact hs
  | published type payload =>
    exact hs.step (.registerProfile seed _ _ [] []) (field_wf hmsg payload)
  | escaped type payload =>
    exact hs.step (.registerProfile seed _ _ [] []) (field_wf hmsg payload)
  | ruled => exact hs.step (.registerRule (wireRule msg)) (wireRule_wf hmsg)
  | observed => exact hs.step (.registerEvidence (wireEvidence seed msg)) (wireEvidence_wf hmsg seed)
  | retired => exact hs.step (.invalidateProfile (msg.fieldUuid 4) (msg.fieldStr 5)) trivial
  | queried requirement =>
    cases requirement with
    | false => exact hs.step (.evaluatePair (msg.fieldUuid 1) (msg.fieldUuid 2)) trivial
    | true => exact hs.step (.evaluateRequirement (msg.fieldUuid 1) (msg.fieldUuid 2)) trivial

end Coordinator

namespace Server

theorem mem_numbered {seeds : ℕ → Uuid} {n : ℕ} {msgs : List NetMessage} {m : Uuid × NetMessage}
    (h : m ∈ numbered seeds n msgs) : m.2 ∈ msgs := by
  induction msgs generalizing n with
  | nil => cases h
  | cons msg msgs ih =>
    rcases List.mem_cons.mp h with rfl | h
    · exact List.mem_cons_self
    · exact List.mem_cons_of_mem msg (ih h)

theorem Sessions.receivable {seeds : ℕ → Uuid} {sockets : List Socket} {s : Server}
    {sessions : List (List NetMessage)} {u : Turn × List Socket × Server} (h : Sessions seeds sockets s sessions u) :
    ∀ msg ∈ sessions.flatten, msg.Receivable := by
  intro msg hmsg
  obtain ⟨msgs, hmsgs, hmem⟩ := List.mem_flatten.mp hmsg
  obtain ⟨i, hi, rfl⟩ := List.mem_iff_getElem.mp hmsgs
  obtain ⟨socket, msgs', t, -, hsame, -, hserved, -⟩ := h.served i hi
  rw [List.getElem?_eq_getElem hi] at hsame
  obtain rfl := Option.some.inj hsame
  exact hserved.receivable msg hmem

end Server

end CompatRegistry
