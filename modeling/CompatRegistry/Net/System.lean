import CompatRegistry.Net.Party

/-! Clients and a coordinator around the connections between them. The coordinator serves one
connection at a time, and what the parties do interleaves in any way. Whatever happens, the
coordinator has handled one sequence of requests, and the calls of a client up to the first one
that fails come down to their places in it. -/

namespace CompatRegistry

open Foundation Canon Relation

/-- A request that has been handled, and the answer unless an exception escaped. -/
structure Entry (ι : Type) where
  party : ι
  request : NetMessage
  answer : Option NetMessage

structure System (ι : Type) where
  server : Server
  running : Bool := true
  current : Option ι := none
  parties : ι → Party := fun _ => {}
  history : List (Entry ι) := []

namespace Server

/-- What is sent for a message, if anything. -/
def outcome (seeds : ℕ → Uuid) (msg : NetMessage) (s : Server) : Option NetMessage :=
  match (Coordinator.handleRequest (seeds s.handled) msg s.coordinator).1 with
  | .error _ => none
  | .ok out => some (answerOf out)

/-- What comes of some messages one after another. -/
def outcomes (seeds : ℕ → Uuid) : List NetMessage → Server → List (Option NetMessage)
  | [], _ => []
  | msg :: msgs, s => outcome seeds msg s :: outcomes seeds msgs (afterAll seeds [msg] s)

theorem outcomes_append (seeds : ℕ → Uuid) (past msgs : List NetMessage) (s : Server) :
    outcomes seeds (past ++ msgs) s = outcomes seeds past s ++ outcomes seeds msgs (afterAll seeds past s) := by
  induction past generalizing s with
  | nil => rfl
  | cons msg past ih =>
    rw [List.cons_append, outcomes, outcomes, ih, ← List.singleton_append (l := past), afterAll_append,
      List.cons_append]

theorem outcome_eq_some {seeds : ℕ → Uuid} {msg answer : NetMessage} {s : Server}
    (h : outcome seeds msg s = some answer) :
    ∃ out, (Coordinator.handleRequest (seeds s.handled) msg s.coordinator).1 = .ok out ∧ answer = answerOf out := by
  unfold outcome at h
  split at h
  · cases h
  next out hok => exact ⟨out, hok, (Option.some.inj h).symm⟩

theorem outcome_wf {seeds : ℕ → Uuid} {msg answer : NetMessage} {s : Server}
    (h : outcome seeds msg s = some answer) : answer.payload.WF := by
  obtain ⟨out, hok, rfl⟩ := outcome_eq_some h
  exact answerOf_wf (handleRequest_answersWell _ msg s.coordinator out hok)

/-- What was sent for a message is the front of its answer. -/
theorem Handles.sent_front {seeds : ℕ → Uuid} {socket : Socket} {s : Server} {msg : NetMessage} {rest : Bytes}
    {t : Turn × Socket × Server} (h : Handles seeds socket s msg rest t) :
    ∃ written, t.2.1.sent = socket.sent ++ written ∧
      written <+: (outcome seeds msg s).elim [] NetMessage.framed := by
  unfold outcome
  obtain ⟨e, herror, -, hsent⟩ | ⟨out, hok, written, hsent, hfront, -⟩ := h.ends
  · exact ⟨[], by rw [hsent, List.append_nil], List.nil_prefix⟩
  · rw [hok]
    exact ⟨written, hsent, hfront⟩

end Server

namespace System

variable {ι : Type}

/-- The coordinator's end of a connection, when `n` of the bytes that have arrived are there before
a read fails. -/
def heard (i : ι) (n : ℕ) (room : ℕ → ℕ) (x : System ι) : Socket :=
  { incoming := [(x.parties i).up.arrived.take n], room }

/-- The entry of a message that is received. -/
def handled (seeds : ℕ → Uuid) (i : ι) (n : ℕ) (room : ℕ → ℕ) (x : System ι) : List (Entry ι) :=
  match (x.heard i n room).recvFrame.1 with
  | .message msg => [⟨i, msg, Server.outcome seeds msg x.server⟩]
  | _ => []

/-! ### A turn -/

section Turn
variable {seeds : ℕ → Uuid} {i : ι} {n : ℕ} {room : ℕ → ℕ} {x : System ι}

theorem heard_arriving (i : ι) (n : ℕ) (room : ℕ → ℕ) (x : System ι) :
    (x.heard i n room).arriving = (x.parties i).up.arrived.take n := Pieces.arriving_singleton _

theorem handled_of_message {msg : NetMessage} (h : (x.heard i n room).recvFrame.1 = .message msg) :
    x.handled seeds i n room = [⟨i, msg, Server.outcome seeds msg x.server⟩] := by
  unfold handled
  rw [h]

theorem mem_handled {e : Entry ι} (h : e ∈ x.handled seeds i n room) : e.party = i := by
  unfold handled at h
  split at h
  · rw [List.mem_singleton.mp h]
  · cases h

/-- Where no message is received nothing is handled, and the connection is given up. -/
theorem handled_of_none (h : (∃ err, (x.heard i n room).recvFrame.1 = .failed err) ∧
      (Server.turn seeds (x.heard i n room) x.server).1 = .closed ∨
    (x.heard i n room).recvFrame.1 = .undefined ∧
      (Server.turn seeds (x.heard i n room) x.server).1 = .escaped .outOfRange) :
    x.handled seeds i n room = [] ∧ (Server.turn seeds (x.heard i n room) x.server).1 ≠ .goesOn := by
  unfold handled
  obtain ⟨⟨err, hrecv⟩, hturn⟩ | ⟨hrecv, hturn⟩ := h
  · rw [hrecv, hturn]
    exact ⟨rfl, Turn.noConfusion⟩
  · rw [hrecv, hturn]
    exact ⟨rfl, Turn.noConfusion⟩

/-- What a turn does is handling what it has received. -/
theorem turn_handled (seeds : ℕ → Uuid) (i : ι) (n : ℕ) (room : ℕ → ℕ) (x : System ι) :
    (Server.turn seeds (x.heard i n room) x.server).2.2 =
        Server.afterAll seeds ((x.handled seeds i n room).map Entry.request) x.server ∧
      (x.handled seeds i n room).map Entry.answer =
        Server.outcomes seeds ((x.handled seeds i n room).map Entry.request) x.server := by
  obtain ⟨hnone, -, hstate⟩ | ⟨msg, rest, hhandles⟩ := Server.turn_cases seeds (x.heard i n room) x.server
  · rw [(handled_of_none hnone).1, hstate]
    exact ⟨rfl, rfl⟩
  · have hrecv := Socket.recvFrame_eq_message.mpr ⟨hhandles.receivable, rest, hhandles.arrived.symm⟩
    rw [handled_of_message hrecv, hhandles.state]
    exact ⟨rfl, rfl⟩

/-- A request that comes up is the call that waits, and then its answer is on the way down. -/
theorem Phase.served {calls : List (NetMessage × Option NetMessage)} (h : Phase (x.parties i) calls)
    (seeds : ℕ → Uuid) (n : ℕ) (room : ℕ → ℕ) :
    Phase ((x.parties i).served n (Server.turn seeds (x.heard i n room) x.server))
      (calls ++ (x.handled seeds i n room).map fun e => (e.request, e.answer)) := by
  obtain ⟨hnone, hsent, -⟩ | ⟨msg, rest, hhandles⟩ := Server.turn_cases seeds (x.heard i n room) x.server
  · obtain ⟨hnothing, hcloses⟩ := handled_of_none hnone
    have hsent' : (Server.turn seeds (x.heard i n room) x.server).2.1.sent = [] := hsent
    rw [hnothing, List.map_nil, List.append_nil]
    refine h.cut ?_ ?_ rfl rfl
    · unfold Party.served
      rw [if_neg hcloses]
      exact List.nil_prefix
    · unfold Party.served
      simp only [hsent']
      split_ifs
      · exact List.prefix_rfl
      · rw [Wire.bytes_push, List.append_nil]
  · have hrecv := Socket.recvFrame_eq_message.mpr ⟨hhandles.receivable, rest, hhandles.arrived.symm⟩
    have harrived := hhandles.arrived
    rw [heard_arriving] at harrived
    have hup : msg.framed <+: (x.parties i).up.bytes :=
      (harrived ▸ List.prefix_append _ _ : msg.framed <+: (x.parties i).up.arrived.take n).trans
        ((x.parties i).up.take_front n)
    cases h with
    | idle sound pending up => exact absurd (List.prefix_nil.mp (up ▸ hup)) msg.framed_ne_nil
    | owed sound msg' answer pending wf up => exact absurd (List.prefix_nil.mp (up ▸ hup)) msg.framed_ne_nil
    | asked sound msg' pending wf short up down own =>
      obtain ⟨rfl, hall⟩ := hhandles.receivable.eq_of_prefix wf short hup up
      obtain ⟨hrest, hdrop, htransit⟩ :
          rest = [] ∧ (x.parties i).up.arrived.drop n = [] ∧ (x.parties i).up.transit = [] := by
        rw [Wire.bytes, ← List.take_append_drop n (x.parties i).up.arrived, harrived, List.append_assoc,
          List.append_assoc] at hall
        simpa using hall
      rw [handled_of_message hrecv, own]
      refine .owed sound msg (Server.outcome seeds msg x.server) pending (fun a => Server.outcome_wf) ?_ ?_ rfl
      · unfold Party.served
        simp only
        split_ifs
        · rw [hhandles.left, htransit, hrest, hdrop]
          rfl
        · rfl
      · obtain ⟨written, hsent, hfront⟩ := hhandles.sent_front
        have hsent' : (Server.turn seeds (x.heard i n room) x.server).2.1.sent = written := hsent
        unfold Party.served
        simp only [hsent']
        split_ifs
        · rw [down]
          exact List.nil_prefix
        · rw [Wire.bytes_push, down]
          exact hfront
    | disturbed failed own =>
      apply Phase.later failed own
      exact (List.append_nil (x.parties i).calls).symm

end Turn

/-! ### Steps -/

variable [DecidableEq ι]

def put (i : ι) (p : Party) (x : System ι) : System ι := { x with parties := Function.update x.parties i p }

/-- A turn of the loop in `run`. -/
def serve (seeds : ℕ → Uuid) (i : ι) (n : ℕ) (room : ℕ → ℕ) (x : System ι) : System ι :=
  let t := Server.turn seeds (x.heard i n room) x.server
  { x with
    server := t.2.2
    running := t.1 = .goesOn ∨ t.1 = .closed
    current := if t.1 = .goesOn then some i else none
    parties := Function.update x.parties i ((x.parties i).served n t)
    history := x.history ++ x.handled seeds i n room }

/-- One step of a party or of the bytes between them. Reads and writes may fail at any time. A
client that connects again is another party. -/
inductive Step (seeds : ℕ → Uuid) : System ι → System ι → Prop
  | ask {x : System ι} (i : ι) (msg : NetMessage) (room : ℕ → ℕ) (quiet : (x.parties i).pending = none)
      (wf : msg.payload.WF) (short : msg.framed.length < 2 ^ 32) : Step seeds x (x.put i ((x.parties i).ask msg room))
  | arrive {x : System ι} (i : ι) (n m : ℕ) : Step seeds x (x.put i ((x.parties i).arrive n m))
  | lose {x : System ι} (i : ι) (n m : ℕ) : Step seeds x (x.put i ((x.parties i).lose n m))
  | accept {x : System ι} (i : ι) (running : x.running = true) (free : x.current = none)
      (waits : (x.parties i).accepted = false) :
      Step seeds x ({ x with current := some i }.put i { x.parties i with accepted := true })
  | serve {x : System ι} (i : ι) (n : ℕ) (room : ℕ → ℕ) (running : x.running = true) (current : x.current = some i) :
      Step seeds x (x.serve seeds i n room)
  | take {x : System ι} (i : ι) (msg : NetMessage) (n : ℕ) (pending : (x.parties i).pending = some msg) :
      Step seeds x (x.put i ((x.parties i).take msg n))
  | hangUp {x : System ι} (i : ι) (quiet : (x.parties i).pending = none) :
      Step seeds x (x.put i { x.parties i with connected := false })

/-- The handled calls of one party. -/
def own (i : ι) (x : System ι) : List (NetMessage × Option NetMessage) :=
  (x.history.filter fun e => e.party = i).map fun e => (e.request, e.answer)

/-- No answer is so long that its length does not fit the frame. -/
def ShortAnswers (x : System ι) : Prop :=
  ∀ e ∈ x.history, ∀ answer, e.answer = some answer → answer.framed.length < 2 ^ 32

/-- All calls come down to the sequence in which they were handled: the coordinator is as if it had
handled them alone, each answer is that of the sequence, and each party has got its own answers in
order up to the first call that failed. If none has failed there is nothing else of it in the
sequence, except that the call it waits for may have been handled once. -/
structure Linearized (seeds : ℕ → Uuid) (s : Server) (x : System ι) : Prop where
  state : x.server = Server.afterAll seeds (x.history.map Entry.request) s
  answers : x.history.map Entry.answer = Server.outcomes seeds (x.history.map Entry.request) s
  calls : ∀ i, (x.parties i).answered <+: x.own i
  exact : ∀ i, (x.parties i).Undisturbed → x.own i = (x.parties i).answered ∨
    ∃ msg answer, (x.parties i).pending = some msg ∧ x.own i = (x.parties i).answered ++ [(msg, answer)]

/-! ### Every run -/

/-- The invariant: the coordinator has handled the history, and every call is somewhere. -/
structure Inv (seeds : ℕ → Uuid) (s : Server) (x : System ι) : Prop where
  state : x.server = Server.afterAll seeds (x.history.map Entry.request) s
  answers : x.history.map Entry.answer = Server.outcomes seeds (x.history.map Entry.request) s
  phases : ∀ i, Phase (x.parties i) (x.own i)

section Runs
variable {seeds : ℕ → Uuid} {s : Server} {x y z : System ι}

@[simp] theorem put_parties_self (i : ι) (p : Party) (x : System ι) : (x.put i p).parties i = p := by
  simp only [put, Function.update_self]

theorem put_parties_of_ne {i j : ι} (h : j ≠ i) (p : Party) (x : System ι) : (x.put i p).parties j = x.parties j := by
  simp only [put, Function.update_of_ne h]

theorem Inv.put (h : Inv seeds s x) {i : ι} {p : Party} (hp : Phase p (x.own i)) : Inv seeds s (x.put i p) where
  state := h.state
  answers := h.answers
  phases j := by
    have hown : (x.put i p).own j = x.own j := rfl
    rw [hown]
    by_cases hj : j = i
    · subst hj
      rwa [put_parties_self]
    · rw [put_parties_of_ne hj]
      exact h.phases j

theorem own_serve (i j : ι) (n : ℕ) (room : ℕ → ℕ) (x : System ι) :
    (x.serve seeds i n room).own j =
      x.own j ++ if j = i then (x.handled seeds i n room).map fun e => (e.request, e.answer) else [] := by
  have hown : (x.serve seeds i n room).own j =
      x.own j ++ ((x.handled seeds i n room).filter fun e => e.party = j).map fun e => (e.request, e.answer) := by
    simp only [own, serve, List.filter_append, List.map_append]
  rw [hown]
  congr 1
  by_cases hj : j = i
  · rw [if_pos hj, List.filter_eq_self.mpr fun e he => by simpa [hj] using mem_handled he]
  · rw [if_neg hj, List.filter_eq_nil_iff.mpr fun e he => by simpa [mem_handled he] using Ne.symm hj, List.map_nil]

theorem Inv.serve (h : Inv seeds s x) (i : ι) (n : ℕ) (room : ℕ → ℕ) : Inv seeds s (x.serve seeds i n room) := by
  obtain ⟨hstate, hanswers⟩ := turn_handled seeds i n room x
  constructor
  · change (Server.turn seeds (x.heard i n room) x.server).2.2 = _
    rw [hstate, h.state, ← Server.afterAll_append, ← List.map_append]
    rfl
  · change (x.history ++ x.handled seeds i n room).map Entry.answer =
      Server.outcomes seeds ((x.history ++ x.handled seeds i n room).map Entry.request) s
    rw [List.map_append, List.map_append, Server.outcomes_append, ← h.state, ← h.answers, hanswers]
  · intro j
    rw [own_serve]
    by_cases hj : j = i
    · subst hj
      rw [if_pos rfl]
      simp only [System.serve, Function.update_self]
      exact Phase.served (h.phases j) seeds n room
    · rw [if_neg hj, List.append_nil]
      simp only [System.serve, Function.update_of_ne hj]
      exact h.phases j

/-- A step only adds to the history. -/
theorem Step.history_front (h : Step seeds x y) : x.history <+: y.history := by
  cases h with
  | serve => exact List.prefix_append _ _
  | _ => exact List.prefix_rfl

theorem ShortAnswers.own (h : x.ShortAnswers) (i : ι) :
    ∀ call ∈ x.own i, ∀ answer, call.2 = some answer → answer.framed.length < 2 ^ 32 := by
  intro call hcall
  obtain ⟨e, he, rfl⟩ := List.mem_map.mp hcall
  exact h e (List.mem_filter.mp he).1

theorem Step.inv (h : Step seeds x y) (hx : Inv seeds s x) (hshort : y.ShortAnswers) : Inv seeds s y := by
  cases h with
  | ask i msg room quiet wf short => exact hx.put ((hx.phases i).ask quiet wf short room)
  | arrive i n m => exact hx.put ((hx.phases i).arrive n m)
  | lose i n m => exact hx.put ((hx.phases i).lose n m)
  | accept i running free waits =>
    have hfree : Inv seeds s { x with current := some i } := ⟨hx.state, hx.answers, hx.phases⟩
    exact hfree.put ((hx.phases i).cut List.prefix_rfl List.prefix_rfl rfl rfl)
  | serve i n room running current => exact hx.serve i n room
  | take i msg n pending => exact hx.put ((hx.phases i).take pending (ShortAnswers.own hshort i) n)
  | hangUp i quiet => exact hx.put ((hx.phases i).cut List.prefix_rfl List.prefix_rfl rfl rfl)

abbrev Steps (seeds : ℕ → Uuid) : System ι → System ι → Prop := ReflTransGen (Step seeds)

theorem Steps.history_front (h : Steps seeds x y) : x.history <+: y.history := by
  induction h with
  | refl => exact List.prefix_rfl
  | tail _ hstep ih => exact ih.trans hstep.history_front

omit [DecidableEq ι] in
theorem ShortAnswers.of_prefix (h : y.ShortAnswers) (hfront : x.history <+: y.history) : x.ShortAnswers :=
  fun e he => h e (hfront.subset he)

theorem Steps.inv (h : Steps seeds x y) (hx : Inv seeds s x) (hshort : y.ShortAnswers) : Inv seeds s y := by
  induction h with
  | refl => exact hx
  | tail _ hstep ih => exact hstep.inv (ih (hshort.of_prefix hstep.history_front)) hshort

theorem Inv.start (seeds : ℕ → Uuid) (s : Server) : Inv seeds s ({ server := s } : System ι) where
  state := rfl
  answers := rfl
  phases _ := .idle (List.forall_mem_nil _) rfl rfl rfl rfl

theorem Inv.linearized (h : Inv seeds s x) : Linearized seeds s x where
  state := h.state
  answers := h.answers
  calls i := (h.phases i).answered_front
  exact i hsound := by
    cases h.phases i with
    | idle _ _ _ _ own => exact .inl own
    | asked _ _ _ _ _ _ _ own => exact .inl own
    | owed _ msg answer pending _ _ _ own => exact .inr ⟨msg, answer, pending, own⟩
    | disturbed failed => exact absurd hsound failed

/-! ### Calls that complete -/

/-- The coordinator serves a party that has no call under way, and nothing has been lost. -/
structure Ready (i : ι) (x : System ι) : Prop where
  running : x.running = true
  current : x.current = some i
  connected : (x.parties i).connected = true
  sound : (x.parties i).broken = false
  quiet : (x.parties i).pending = none
  up : (x.parties i).up = {}
  down : (x.parties i).down = {}

theorem Wire.arrive_all (sent : Bytes) : (Wire.mk sent []).arrive sent.length = ⟨[], sent⟩ := by
  rw [Wire.arrive, List.drop_length, List.take_length, List.nil_append]

theorem put_put (i : ι) (p q : Party) (x : System ι) : (x.put i p).put i q = x.put i q := by
  simp only [put, Function.update_idem]

/-- One turn with a request that has arrived in full. -/
theorem serve_request {i : ι} {p : Party} {msg answer : NetMessage} (hp : x.parties i = p) (hmsg : msg.Receivable)
    (hup : p.up = ⟨[], msg.framed⟩) (hdown : p.down = {}) (hsound : p.broken = false)
    (houtcome : Server.outcome seeds msg x.server = some answer) (hanswer : answer.Receivable) :
    ∃ y, y = x.serve seeds i msg.framed.length (fun _ => 1) ∧
      y.parties i = { p with up := {}, down := ⟨answer.framed, []⟩ } ∧
      y.server = Server.afterAll seeds [msg] x.server ∧ y.history = x.history ++ [⟨i, msg, some answer⟩] ∧
      (msg.type ≠ .declared .shutdown → y.running = true ∧ y.current = some i) := by
  have hdrop : p.up.arrived.drop msg.framed.length = [] := by rw [hup, List.drop_length]
  have harriving : (x.heard i msg.framed.length fun _ => 1).arriving = msg.framed ++ [] := by
    rw [heard_arriving, hp, hup, List.append_nil, List.take_length]
  have hrecv := Socket.recvFrame_eq_message.mpr ⟨hmsg, [], harriving.symm⟩
  obtain ⟨out, hok, rfl⟩ := Server.outcome_eq_some houtcome
  obtain ⟨hturn, hleft, -, hsent, hstate⟩ :=
    Server.turn_answers hmsg harriving hok hanswer.framed_lt fun _ => Nat.one_pos
  have hsent' : (Server.turn seeds (x.heard i msg.framed.length fun _ => 1) x.server).2.1.sent =
      (Server.answerOf out).framed := hsent
  have htransit : p.up.transit = [] := by rw [hup]
  refine ⟨_, rfl, ?_, hstate, ?_, fun hother => ?_⟩
  · simp only [serve, Function.update_self, Party.served, hp, hleft, hsent', htransit, hdrop, hdown, hsound,
      Bool.false_eq_true, if_false, Wire.push, List.nil_append, ite_self]
  · simp only [serve, handled_of_message hrecv, houtcome]
  · rw [if_neg hother] at hturn
    simp only [serve, hturn, true_or, decide_true, if_true, and_self]

/-- The call of a party that is served can come back with its answer. -/
theorem Ready.call_completes {i : ι} (h : x.Ready i) {msg answer : NetMessage} (hmsg : msg.Receivable)
    (houtcome : Server.outcome seeds msg x.server = some answer) (hanswer : answer.Receivable) :
    ∃ y, Steps seeds x y ∧ y.history = x.history ++ [⟨i, msg, some answer⟩] ∧
      y.server = Server.afterAll seeds [msg] x.server ∧
      (y.parties i).calls = (x.parties i).calls ++ [(msg, .message answer)] ∧
      (∀ j, j ≠ i → y.parties j = x.parties j) ∧ (msg.type ≠ .declared .shutdown → y.Ready i) := by
  have hsize : msg.framed.length < 2 ^ 32 := hmsg.framed_lt.trans (by norm_num)
  set p := x.parties i
  have hdown : p.down = {} := h.down
  -- the request goes up and arrives
  let p₁ : Party := { p with up := ⟨msg.framed, []⟩, pending := some msg }
  have hask : Step seeds x (x.put i p₁) := by
    have hstep : Step seeds x (x.put i (p.ask msg fun _ => 1)) := .ask i msg _ h.quiet hmsg.wf hsize
    rwa [Party.ask_eq h.connected h.sound h.up hmsg] at hstep
  let p₂ : Party := { p₁ with up := ⟨[], msg.framed⟩ }
  have harrive : Step seeds (x.put i p₁) (x.put i p₂) := by
    have hstep : Step seeds (x.put i p₁) _ := .arrive i msg.framed.length 0
    rw [put_parties_self, put_put] at hstep
    have harrived : p₁.arrive msg.framed.length 0 = p₂ := by
      simp only [Party.arrive, p₁, p₂, Wire.arrive_all, hdown]
      rfl
    rwa [harrived] at hstep
  -- it is handled
  obtain ⟨z, hz, hparty, hserver, hhistory, hgoes⟩ :=
    serve_request (x := x.put i p₂) (put_parties_self i p₂ x) hmsg rfl h.down h.sound houtcome hanswer
  have hserve : Step seeds (x.put i p₂) z := by
    rw [hz]
    exact .serve i _ _ h.running h.current
  -- the answer comes down and is taken
  let p₄ : Party := { p₂ with up := {}, down := ⟨[], answer.framed⟩ }
  have hreturn : Step seeds z (z.put i p₄) := by
    have hstep : Step seeds z _ := .arrive i 0 answer.framed.length
    have harrived : (z.parties i).arrive 0 answer.framed.length = p₄ := by
      rw [hparty]
      simp only [Party.arrive, p₄, Wire.arrive_all]
      rfl
    rwa [harrived] at hstep
  have htake : Step seeds (z.put i p₄)
      (z.put i { p₄ with down := {}, pending := none, calls := p.calls ++ [(msg, .message answer)] }) := by
    have hstep : Step seeds (z.put i p₄) _ := .take i msg answer.framed.length (by rw [put_parties_self])
    rwa [put_parties_self, put_put, Party.take_eq (p := p₄) h.connected hanswer rfl] at hstep
  refine ⟨_, ((((ReflTransGen.single hask).tail harrive).tail hserve).tail hreturn).tail htake, hhistory, hserver,
    ?_, fun j hj => ?_, fun hother => ?_⟩
  · rw [put_parties_self]
  · rw [put_parties_of_ne hj, hz]
    simp only [System.serve, Function.update_of_ne hj, put]
  · obtain ⟨hrunning, hcurrent⟩ := hgoes hother
    constructor
    case running => exact hrunning
    case current => exact hcurrent
    all_goals rw [put_parties_self]
    · exact h.connected
    · exact h.sound

/-- So can any number of calls, one after the other. -/
theorem Ready.calls_complete {i : ι} (h : x.Ready i) {calls : List (NetMessage × NetMessage)}
    (hcalls : ∀ call ∈ calls, call.1.Receivable ∧ call.1.type ≠ .declared .shutdown ∧ call.2.Receivable)
    (houtcomes : Server.outcomes seeds (calls.map Prod.fst) x.server = calls.map fun call => some call.2) :
    ∃ y, Steps seeds x y ∧ y.server = Server.afterAll seeds (calls.map Prod.fst) x.server ∧
      (y.parties i).calls = (x.parties i).calls ++ calls.map (fun call => (call.1, .message call.2)) ∧
      (∀ j, j ≠ i → y.parties j = x.parties j) ∧ y.Ready i := by
  induction calls generalizing x with
  | nil => exact ⟨x, .refl, rfl, (List.append_nil _).symm, fun _ _ => rfl, h⟩
  | cons call calls ih =>
    obtain ⟨⟨hmsg, hother, hanswer⟩, hcalls⟩ := List.forall_mem_cons.mp hcalls
    rw [List.map_cons, List.map_cons, Server.outcomes, List.cons.injEq] at houtcomes
    obtain ⟨houtcome, houtcomes⟩ := houtcomes
    obtain ⟨y, hxy, -, hserver, hcompleted, hsame, hready⟩ := h.call_completes hmsg houtcome hanswer
    rw [← hserver] at houtcomes
    obtain ⟨z, hyz, hlast, hall, hothers, hend⟩ := ih (hready hother) hcalls houtcomes
    refine ⟨z, hxy.trans hyz, ?_, ?_, fun j hj => (hothers j hj).trans (hsame j hj), hend⟩
    · rw [hlast, hserver, ← Server.afterAll_append]
      rfl
    · rw [hall, hcompleted, List.append_assoc, List.singleton_append, List.map_cons]

/-- The coordinator has accepted a party and nothing has happened yet. -/
def accepting (i : ι) (s : Server) : System ι :=
  { ({ server := s, current := some i } : System ι) with
    parties := Function.update (fun _ => {}) i { accepted := true } }

theorem accepting_ready (i : ι) (s : Server) : (accepting i s).Ready i := by
  constructor <;> simp [accepting]

theorem accepting_steps (seeds : ℕ → Uuid) (i : ι) (s : Server) : Steps seeds { server := s } (accepting i s) :=
  .single (.accept (x := { server := s }) i rfl rfl rfl)

/-- A source that registers at a new coordinator. -/
def greeting : NetMessage × NetMessage :=
  (registerSourceRequest (ascii "build") (ascii "cuda"),
    { type := .declared .ack
      payload := ofEntries [(1, .uuid Uuid.zero), (2, .uint 1), (3, .uint 1)] })

theorem greeting_receivable : greeting.1.Receivable ∧ greeting.2.Receivable := by
  refine ⟨⟨ofEntries_wf (by simp) (by simp [WFRecord, WF]), ?_⟩,
    ⟨ofEntries_wf (by simp) (by simp [WFRecord, WF]), ?_⟩⟩
  · rw [Canon.encoding_length]
    decide
  · rw [Canon.encoding_length]
    decide

theorem outcomes_greeting :
    Server.outcomes (fun _ => Uuid.zero) [greeting.1, greeting.1] {} = [some greeting.2, some greeting.2] := rfl

/-- It registers and then registers again. -/
theorem calls_complete_greeting :
    ∃ y : System Bool, Steps (fun _ => Uuid.zero) (accepting true {}) y ∧
      y.server = Server.afterAll (fun _ => Uuid.zero) [greeting.1, greeting.1] {} ∧
      (y.parties true).calls = [(greeting.1, .message greeting.2), (greeting.1, .message greeting.2)] ∧
      y.Ready true := by
  obtain ⟨hrequest, hanswer⟩ := greeting_receivable
  have hcalls : ∀ call ∈ [greeting, greeting],
      call.1.Receivable ∧ call.1.type ≠ .declared .shutdown ∧ call.2.Receivable := by
    intro call hcall
    obtain rfl : call = greeting := by simpa using hcall
    exact ⟨hrequest, by decide, hanswer⟩
  obtain ⟨y, hsteps, hserver, hcompleted, -, hready⟩ :=
    (accepting_ready true {}).calls_complete hcalls outcomes_greeting
  exact ⟨y, hsteps, hserver, by simpa [accepting] using hcompleted, hready⟩

/-- Whatever the parties do and whatever becomes of the bytes: what the coordinator does and what
the calls receive is linearized, and what has been handled at one time stays handled, in front of
everything handled later. -/
theorem steps_linearized (hx : Steps seeds { server := s } x) (hxy : Steps seeds x y) (hshort : y.ShortAnswers) :
    Linearized seeds s x ∧ Linearized seeds s y ∧ x.history <+: y.history := by
  have hfront := hxy.history_front
  have hinv := hx.inv (Inv.start seeds s) (hshort.of_prefix hfront)
  exact ⟨hinv.linearized, (hxy.inv hinv hshort).linearized, hfront⟩

/-- One party registers; another one has hung up and calls all the same. -/
theorem steps_linearized_greeting :
    ∃ x y : System Bool, (x.parties true).calls = [(greeting.1, .message greeting.2)] ∧
      (y.parties false).calls = [(greeting.1, .failed (ascii "not connected"))] ∧
      Linearized (fun _ => Uuid.zero) {} x ∧ Linearized (fun _ => Uuid.zero) {} y ∧ x.history <+: y.history := by
  obtain ⟨hrequest, hanswer⟩ := greeting_receivable
  obtain ⟨x, hsteps, hhistory, -, hcompleted, hothers, -⟩ := (accepting_ready true {}).call_completes hrequest
    (List.cons.inj outcomes_greeting).1 hanswer
  have hx := (accepting_steps (fun _ => Uuid.zero) true {}).trans hsteps
  have hother : x.parties false = {} := (hothers false Bool.false_ne_true).trans (by simp [accepting])
  have hhangs : Step (fun _ => Uuid.zero) x (x.put false { connected := false }) := by
    have hstep : Step (fun _ => Uuid.zero) x _ := .hangUp false (by rw [hother])
    rwa [hother] at hstep
  have hcalls : Step (fun _ => Uuid.zero) (x.put false { connected := false })
      (x.put false { connected := false, calls := [(greeting.1, .failed (ascii "not connected"))] }) := by
    have hsize : greeting.1.framed.length < 2 ^ 32 := hrequest.framed_lt.trans (by norm_num)
    have hstep : Step (fun _ => Uuid.zero) (x.put false { connected := false }) _ :=
      .ask false greeting.1 (fun _ => 0) (by rw [put_parties_self]) hrequest.wf hsize
    rwa [put_parties_self, put_put] at hstep
  refine ⟨x, _, by simpa [accepting] using hcompleted, ?_,
    steps_linearized hx ((ReflTransGen.single hhangs).tail hcalls) ?_⟩
  · rw [put_parties_self]
  · intro e he answer hsome
    have hentry : e = ⟨true, greeting.1, some greeting.2⟩ := by
      have hmem : e ∈ x.history := he
      simpa [hhistory, accepting] using hmem
    rw [hentry] at hsome
    cases hsome
    exact hanswer.framed_lt.trans (by norm_num)

end Runs

end System

end CompatRegistry
