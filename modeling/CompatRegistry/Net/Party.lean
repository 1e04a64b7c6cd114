import CompatRegistry.Net.Client

/-! A client at its end of a connection. Bytes take their time, arrive in any portions and may be
lost with the connection, and a call of the client may fail at any of its reads and writes. A
client that fails goes on with the connection as it is, so what its calls receive from then on
need not be answers to them; up to there each call waits for one answer, and that is on its way. -/

namespace CompatRegistry

open Foundation Canon

/-! ### Connections -/

/-- One direction of a connection: bytes under way, and bytes that have arrived. -/
structure Wire where
  transit : Bytes := []
  arrived : Bytes := []

namespace Wire

/-- The bytes that are still to be read, in order. -/
def bytes (w : Wire) : Bytes := w.arrived ++ w.transit

def push (sent : Bytes) (w : Wire) : Wire := { w with transit := w.transit ++ sent }

/-- The next bytes arrive. -/
def arrive (n : ℕ) (w : Wire) : Wire := ⟨w.transit.drop n, w.arrived ++ w.transit.take n⟩

/-- Only some of the bytes under way are left. -/
def lose (n : ℕ) (w : Wire) : Wire := { w with transit := w.transit.take n }

@[simp] theorem bytes_push (sent : Bytes) (w : Wire) : (w.push sent).bytes = w.bytes ++ sent :=
  (List.append_assoc _ _ _).symm

@[simp] theorem bytes_arrive (n : ℕ) (w : Wire) : (w.arrive n).bytes = w.bytes := by
  rw [bytes, arrive, List.append_assoc, List.take_append_drop, bytes]

theorem take_front (n : ℕ) (w : Wire) : w.arrived.take n <+: w.bytes :=
  (List.take_prefix _ _).trans (List.prefix_append _ _)

theorem lose_front (n : ℕ) (w : Wire) : (w.lose n).bytes <+: w.bytes :=
  (List.prefix_append_right_inj _).mpr (List.take_prefix _ _)

end Wire

/-- A client with its connection: whether it holds its end, whether bytes have been lost, whether
the coordinator has accepted it; the call that waits for its answer, and what the calls that have
come back received. -/
structure Party where
  connected : Bool := true
  broken : Bool := false
  accepted : Bool := false
  up : Wire := {}
  down : Wire := {}
  pending : Option NetMessage := none
  calls : List (NetMessage × Received) := []

namespace Party

/-- The client, when `n` of the bytes that have arrived are there before a read fails. -/
def client (n : ℕ) (room : ℕ → ℕ) (p : Party) : RegistryClient where
  socket := if p.connected then some { incoming := [p.down.arrived.take n], room } else none

/-- A call begins: the first half of `RegistryClient::send`. -/
def ask (msg : NetMessage) (room : ℕ → ℕ) (p : Party) : Party :=
  let (result, client) := (p.client 0 room).ask msg
  let up := if p.broken then p.up else p.up.push (client.socket.elim [] Socket.sent)
  match result with
  | .ok (.ok ()) => { p with up, pending := some msg }
  | .ok (.error err) => { p with up, calls := p.calls ++ [(msg, .failed err)] }
  | .error _ => { p with up }

/-- It comes back: the second half. -/
def take (msg : NetMessage) (n : ℕ) (p : Party) : Party :=
  let (received, client) := (p.client n fun _ => 0).hear
  { p with
    down := ⟨p.down.transit, client.socket.elim [] Socket.arriving ++ p.down.arrived.drop n⟩
    pending := none
    calls := p.calls ++ [(msg, received)] }

/-- The connection has done a turn, in which `n` of the bytes that had arrived were there. The
coordinator closes it unless it goes on. -/
def served (n : ℕ) (t : Turn × Socket × Server) (p : Party) : Party :=
  { p with
    up := if t.1 = .goesOn then ⟨p.up.transit, t.2.1.arriving ++ p.up.arrived.drop n⟩ else {}
    down := if p.broken then p.down else p.down.push t.2.1.sent }

def arrive (n m : ℕ) (p : Party) : Party := { p with up := p.up.arrive n, down := p.down.arrive m }

def lose (n m : ℕ) (p : Party) : Party := { p with broken := true, up := p.up.lose n, down := p.down.lose m }

/-! ### Calls that have come back -/

/-- The calls up to the first one that received no message, with what the coordinator had made of them. -/
def answeredOf : List (NetMessage × Received) → List (NetMessage × Option NetMessage)
  | (msg, .message answer) :: calls => (msg, some answer) :: answeredOf calls
  | _ => []

def answered (p : Party) : List (NetMessage × Option NetMessage) := answeredOf p.calls

/-- No call has failed to receive a message. -/
def Undisturbed (p : Party) : Prop := ∀ call ∈ p.calls, ∃ answer, call.2 = .message answer

theorem answeredOf_append {calls : List (NetMessage × Received)}
    (h : ∀ call ∈ calls, ∃ answer, call.2 = .message answer) (more : List (NetMessage × Received)) :
    answeredOf (calls ++ more) = answeredOf calls ++ answeredOf more := by
  induction calls with
  | nil => rfl
  | cons call calls ih =>
    obtain ⟨⟨answer, hanswer⟩, hcalls⟩ := List.forall_mem_cons.mp h
    obtain ⟨msg, received⟩ := call
    obtain rfl : received = .message answer := hanswer
    rw [List.cons_append, answeredOf, answeredOf, ih hcalls, List.cons_append]

theorem answeredOf_append_of_not {calls : List (NetMessage × Received)}
    (h : ¬ ∀ call ∈ calls, ∃ answer, call.2 = .message answer) (more : List (NetMessage × Received)) :
    answeredOf (calls ++ more) = answeredOf calls := by
  induction calls with
  | nil => exact absurd (List.forall_mem_nil _) h
  | cons call calls ih =>
    obtain ⟨msg, received⟩ := call
    cases received with
    | message answer =>
      have hcalls := mt (fun hcalls => List.forall_mem_cons.mpr ⟨⟨answer, rfl⟩, hcalls⟩) h
      rw [List.cons_append, answeredOf, answeredOf, ih hcalls]
    | failed err => rfl
    | undefined => rfl

theorem answeredOf_failing {received : Received} (h : ∀ answer, received ≠ .message answer) (msg : NetMessage) :
    answeredOf [(msg, received)] = [] := by
  cases received with
  | message answer => exact absurd rfl (h answer)
  | failed err => rfl
  | undefined => rfl

/-- One more call that received no message changes nothing that was answered. -/
theorem answered_of_failing {p q : Party} {msg : NetMessage} {received : Received}
    (hcalls : q.calls = p.calls ++ [(msg, received)]) (h : ∀ answer, received ≠ .message answer) :
    q.answered = p.answered ∧ ¬ q.Undisturbed := by
  constructor
  · rw [answered, hcalls, answered]
    by_cases hall : ∀ call ∈ p.calls, ∃ answer, call.2 = .message answer
    · rw [answeredOf_append hall, answeredOf_failing h, List.append_nil]
    · exact answeredOf_append_of_not hall _
  · intro hq
    obtain ⟨answer, hanswer⟩ := hq (msg, received) (hcalls ▸ List.mem_append_right _ (List.mem_singleton_self _))
    exact h answer hanswer

theorem answered_of_message {p q : Party} {msg answer : NetMessage}
    (hcalls : q.calls = p.calls ++ [(msg, .message answer)]) (h : p.Undisturbed) :
    q.answered = p.answered ++ [(msg, some answer)] ∧ q.Undisturbed := by
  constructor
  · rw [answered, hcalls, answeredOf_append h]
    rfl
  · intro call hcall
    rw [hcalls, List.mem_append, List.mem_singleton] at hcall
    obtain hcall | rfl := hcall
    · exact h call hcall
    · exact ⟨answer, rfl⟩

/-- After a call that failed nothing more counts as answered. -/
theorem answered_of_disturbed {p q : Party} (h : ¬ p.Undisturbed) {more : List (NetMessage × Received)}
    (hcalls : q.calls = p.calls ++ more) : q.answered = p.answered ∧ ¬ q.Undisturbed := by
  constructor
  · rw [answered, hcalls, answered, answeredOf_append_of_not h]
  · intro hq
    exact h fun call hcall => hq call (hcalls ▸ List.mem_append_left _ hcall)

/-! ### What the halves of a call do -/

/-- A request goes out, at least its front, and the call waits; or it has failed. -/
theorem ask_cases {msg : NetMessage} (hwf : msg.payload.WF) (room : ℕ → ℕ) (p : Party) :
    ∃ written, written <+: msg.framed ∧ (p.ask msg room).up = (if p.broken then p.up else p.up.push written) ∧
      (p.ask msg room).down = p.down ∧
      ((p.ask msg room).pending = some msg ∧ (p.ask msg room).calls = p.calls ∨
        ∃ err, (p.ask msg room).pending = p.pending ∧ (p.ask msg room).calls = p.calls ++ [(msg, .failed err)]) := by
  by_cases hconnected : p.connected = true
  · obtain ⟨written, hsent, hfront, -, -⟩ :=
      ({ incoming := [p.down.arrived.take 0], room } : Socket).sendAll_cases msg.framed
    rw [List.nil_append] at hsent
    have hask := RegistryClient.ask_connected (c := p.client 0 room) (by rw [client, if_pos hconnected]) hwf
    refine ⟨written, hfront, ?_⟩
    unfold ask
    rw [hask]
    simp only [Option.elim_some, hsent]
    split_ifs
    all_goals simp
  · have hask : (p.client 0 room).ask msg = (.ok (.error (ascii "not connected")), p.client 0 room) := by
      unfold RegistryClient.ask client
      rw [if_neg hconnected]
    refine ⟨[], List.nil_prefix, ?_⟩
    unfold ask
    rw [hask]
    simp [client, hconnected]

/-- The frame at the front of what is there is received, or the call has failed. -/
theorem take_cases (msg : NetMessage) (n : ℕ) (p : Party) :
    (p.take msg n).up = p.up ∧ (p.take msg n).pending = none ∧
      ((∃ answer rest, answer.Receivable ∧ p.down.arrived.take n = answer.framed ++ rest ∧
          (p.take msg n).down = ⟨p.down.transit, rest ++ p.down.arrived.drop n⟩ ∧
          (p.take msg n).calls = p.calls ++ [(msg, .message answer)]) ∨
        ∃ received, (∀ answer, received ≠ .message answer) ∧
          (p.take msg n).calls = p.calls ++ [(msg, received)]) := by
  refine ⟨rfl, rfl, ?_⟩
  by_cases hconnected : p.connected = true
  · have hhear := RegistryClient.hear_connected (c := p.client n fun _ => 0) (by rw [client, if_pos hconnected])
    have harriving : ({ incoming := [p.down.arrived.take n], room := fun _ => 0 } : Socket).arriving =
        p.down.arrived.take n := Pieces.arriving_singleton _
    unfold take
    rw [hhear]
    cases hrecv : ({ incoming := [p.down.arrived.take n], room := fun _ => 0 } : Socket).recvFrame.1 with
    | message answer =>
      obtain ⟨hanswer, rest, hrest⟩ := Socket.recvFrame_eq_message.mp hrecv
      have hleft := Socket.recvFrame_rest hanswer hrest.symm
      rw [harriving] at hrest
      refine .inl ⟨answer, rest, hanswer, hrest.symm, ?_, rfl⟩
      simp only [Option.elim_some, hleft]
    | failed err => exact .inr ⟨_, fun _ => Received.noConfusion, rfl⟩
    | undefined => exact .inr ⟨_, fun _ => Received.noConfusion, rfl⟩
  · have hhear : (p.client n fun _ => 0).hear = (.failed (ascii "not connected"), p.client n fun _ => 0) := by
      unfold RegistryClient.hear client
      rw [if_neg hconnected]
    unfold take
    rw [hhear]
    exact .inr ⟨_, fun _ => Received.noConfusion, rfl⟩

/-- A request over a connection that takes everything. -/
theorem ask_eq {p : Party} (hconnected : p.connected = true) (hsound : p.broken = false) (hup : p.up = {})
    {msg : NetMessage} (hmsg : msg.Receivable) :
    p.ask msg (fun _ => 1) = { p with up := ⟨msg.framed, []⟩, pending := some msg } := by
  obtain ⟨hall, -⟩ := ({ incoming := [p.down.arrived.take 0], room := fun _ => 1 } : Socket).sendAll_of_pos
    hmsg.framed_lt fun _ => Nat.one_pos
  obtain ⟨written, hsent, -, hfull, -⟩ :=
    ({ incoming := [p.down.arrived.take 0], room := fun _ => 1 } : Socket).sendAll_cases msg.framed
  rw [hfull.mp hall, List.nil_append] at hsent
  have hask := RegistryClient.ask_connected (c := p.client 0 fun _ => 1) (by rw [client, if_pos hconnected]) hmsg.wf
  rw [hall, if_pos rfl] at hask
  unfold ask
  rw [hask]
  simp only [Option.elim_some, hsent, hsound, hup, Bool.false_eq_true, if_false, Wire.push, List.nil_append]

/-- An answer that has arrived alone and in full. -/
theorem take_eq {p : Party} (hconnected : p.connected = true) {msg answer : NetMessage} (hanswer : answer.Receivable)
    (hdown : p.down = ⟨[], answer.framed⟩) : p.take msg answer.framed.length =
      { p with down := {}, pending := none, calls := p.calls ++ [(msg, .message answer)] } := by
  have hthere : p.down.arrived.take answer.framed.length = answer.framed := by rw [hdown, List.take_length]
  have hdrop : p.down.arrived.drop answer.framed.length = [] := by rw [hdown, List.drop_length]
  have harriving : ({ incoming := [answer.framed], room := fun _ => 0 } : Socket).arriving = answer.framed ++ [] := by
    rw [List.append_nil]
    exact Pieces.arriving_singleton _
  have hrecv := Socket.recvFrame_eq_message.mpr ⟨hanswer, [], harriving.symm⟩
  have hleft := Socket.recvFrame_rest hanswer harriving
  have hhear := RegistryClient.hear_connected (c := p.client answer.framed.length fun _ => 0)
    (by rw [client, if_pos hconnected, hthere])
  rw [hrecv] at hhear
  have htransit : p.down.transit = [] := by rw [hdown]
  unfold take
  rw [hhear]
  simp only [Option.elim_some, hleft, hdrop, htransit, List.append_nil]

end Party

/-! ### Where a call is -/

/-- The call of a party, given the calls of it that the coordinator has handled: there is none, its
request is on the way up, or it has been handled and its answer is on the way down. Bytes that
were lost are missing at the end. After a call that failed only what was answered before stays. -/
inductive Phase (p : Party) (calls : List (NetMessage × Option NetMessage)) : Prop
  | idle (sound : p.Undisturbed) (pending : p.pending = none) (up : p.up.bytes = []) (down : p.down.bytes = [])
      (own : calls = p.answered)
  | asked (sound : p.Undisturbed) (msg : NetMessage) (pending : p.pending = some msg) (wf : msg.payload.WF)
      (short : msg.framed.length < 2 ^ 32) (up : p.up.bytes <+: msg.framed) (down : p.down.bytes = [])
      (own : calls = p.answered)
  | owed (sound : p.Undisturbed) (msg : NetMessage) (answer : Option NetMessage) (pending : p.pending = some msg)
      (wf : ∀ a, answer = some a → a.payload.WF) (up : p.up.bytes = [])
      (down : p.down.bytes <+: answer.elim [] NetMessage.framed) (own : calls = p.answered ++ [(msg, answer)])
  | disturbed (failed : ¬ p.Undisturbed) (own : p.answered <+: calls)

namespace Phase

variable {p : Party} {calls : List (NetMessage × Option NetMessage)}

theorem answered_front (h : Phase p calls) : p.answered <+: calls := by
  cases h with
  | idle _ _ _ _ own => exact own ▸ List.prefix_rfl
  | asked _ _ _ _ _ _ _ own => exact own ▸ List.prefix_rfl
  | owed _ _ _ _ _ _ _ own => exact own ▸ List.prefix_append _ _
  | disturbed _ own => exact own

/-- A call that fails leaves what was answered before it. -/
theorem fails (h : Phase p calls) {q : Party} {msg : NetMessage} {received : Received}
    (hcalls : q.calls = p.calls ++ [(msg, received)]) (hfailed : ∀ answer, received ≠ .message answer) :
    Phase q calls := by
  obtain ⟨hanswered, hdisturbed⟩ := Party.answered_of_failing hcalls hfailed
  exact .disturbed hdisturbed (hanswered ▸ h.answered_front)

/-- Once disturbed, a party stays so, whatever the coordinator handles for it. -/
theorem later {q : Party} (hfailed : ¬ p.Undisturbed) (hown : p.answered <+: calls)
    {more : List (NetMessage × Received)} (hcalls : q.calls = p.calls ++ more)
    (handled : List (NetMessage × Option NetMessage)) : Phase q (calls ++ handled) := by
  obtain ⟨hanswered, hdisturbed⟩ := Party.answered_of_disturbed hfailed hcalls
  exact .disturbed hdisturbed (hanswered ▸ hown.trans (List.prefix_append _ _))

/-- Only the connection is concerned, of which the ends may be missing. -/
theorem cut (h : Phase p calls) {q : Party} (hup : q.up.bytes <+: p.up.bytes) (hdown : q.down.bytes <+: p.down.bytes)
    (hpending : q.pending = p.pending) (hcalls : q.calls = p.calls) : Phase q calls := by
  have hanswered : q.answered = p.answered := by rw [Party.answered, hcalls, Party.answered]
  have hsound : q.Undisturbed ↔ p.Undisturbed := by rw [Party.Undisturbed, hcalls, Party.Undisturbed]
  cases h with
  | idle sound pending up down own =>
    exact .idle (hsound.mpr sound) (hpending.trans pending) (List.prefix_nil.mp (up ▸ hup))
      (List.prefix_nil.mp (down ▸ hdown)) (own.trans hanswered.symm)
  | asked sound msg pending wf short up down own =>
    exact .asked (hsound.mpr sound) msg (hpending.trans pending) wf short (hup.trans up)
      (List.prefix_nil.mp (down ▸ hdown)) (own.trans hanswered.symm)
  | owed sound msg answer pending wf up down own =>
    exact .owed (hsound.mpr sound) msg answer (hpending.trans pending) wf (List.prefix_nil.mp (up ▸ hup))
      (hdown.trans down) (hanswered ▸ own)
  | disturbed failed own => exact .disturbed (mt hsound.mp failed) (hanswered ▸ own)

theorem arrive (h : Phase p calls) (n m : ℕ) : Phase (p.arrive n m) calls :=
  h.cut (Wire.bytes_arrive n p.up ▸ List.prefix_rfl) (Wire.bytes_arrive m p.down ▸ List.prefix_rfl) rfl rfl

theorem lose (h : Phase p calls) (n m : ℕ) : Phase (p.lose n m) calls :=
  h.cut (Wire.lose_front n p.up) (Wire.lose_front m p.down) rfl rfl

theorem ask (h : Phase p calls) (hquiet : p.pending = none) {msg : NetMessage} (hwf : msg.payload.WF)
    (hshort : msg.framed.length < 2 ^ 32) (room : ℕ → ℕ) : Phase (p.ask msg room) calls := by
  obtain ⟨written, hfront, hup, hdown, ⟨hpending, hcalls⟩ | ⟨err, -, hcalls⟩⟩ := Party.ask_cases hwf room p
  · have hanswered : (p.ask msg room).answered = p.answered := by rw [Party.answered, hcalls, Party.answered]
    cases h with
    | idle sound pending up down own =>
      have hsound : (p.ask msg room).Undisturbed := by rwa [Party.Undisturbed, hcalls]
      refine .asked hsound msg hpending hwf hshort ?_ (hdown ▸ down) (own.trans hanswered.symm)
      rw [hup]
      split_ifs
      · rw [up]
        exact List.nil_prefix
      · rw [Wire.bytes_push, up]
        exact hfront
    | asked sound msg' pending =>
      rw [hquiet] at pending
      cases pending
    | owed sound msg' answer pending =>
      rw [hquiet] at pending
      cases pending
    | disturbed failed own =>
      refine .disturbed ?_ (hanswered ▸ own)
      rwa [Party.Undisturbed, hcalls]
  · exact h.fails hcalls fun _ => Received.noConfusion

/-- A message that comes down is the answer to the call that waits. -/
theorem take (h : Phase p calls) {msg : NetMessage} (hpending : p.pending = some msg)
    (hshort : ∀ call ∈ calls, ∀ answer, call.2 = some answer → answer.framed.length < 2 ^ 32) (n : ℕ) :
    Phase (p.take msg n) calls := by
  obtain ⟨hup, hquiet, ⟨got, rest, hgot, hthere, hdown, hcalls⟩ | ⟨received, hfailed, hcalls⟩⟩ :=
    Party.take_cases msg n p
  · have hfront : got.framed <+: p.down.bytes :=
      (hthere ▸ List.prefix_append _ _ : got.framed <+: p.down.arrived.take n).trans (p.down.take_front n)
    cases h with
    | idle sound quiet =>
      rw [hpending] at quiet
      cases quiet
    | asked sound msg' pending wf short up down own =>
      rw [down] at hfront
      exact absurd (List.prefix_nil.mp hfront) got.framed_ne_nil
    | owed sound msg' answer pending wf up down own =>
      rw [hpending] at pending
      cases pending
      cases answer with
      | none => exact absurd (List.prefix_nil.mp (hfront.trans down)) got.framed_ne_nil
      | some answer =>
        have hsmall := hshort _ (own ▸ List.mem_append_right _ (List.mem_singleton_self _)) answer rfl
        obtain ⟨rfl, hall⟩ := hgot.eq_of_prefix (wf answer rfl) hsmall hfront down
        have hnothing : rest = [] ∧ p.down.arrived.drop n = [] ∧ p.down.transit = [] := by
          rw [Wire.bytes, ← List.take_append_drop n p.down.arrived, hthere, List.append_assoc,
            List.append_assoc] at hall
          simpa using hall
        obtain ⟨hanswered, hsound⟩ := Party.answered_of_message hcalls sound
        refine .idle hsound hquiet (hup ▸ up) ?_ (own.trans hanswered.symm)
        rw [hdown, Wire.bytes, hnothing.1, hnothing.2.1, hnothing.2.2]
        rfl
    | disturbed failed own =>
      obtain ⟨hanswered, hdisturbed⟩ := Party.answered_of_disturbed failed hcalls
      exact .disturbed hdisturbed (hanswered ▸ own)
  · exact h.fails hcalls hfailed

end Phase

end CompatRegistry
