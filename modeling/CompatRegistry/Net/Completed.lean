import CompatRegistry.Net.Answers
import CompatRegistry.Net.System

/-! What the calls of clients return, said on the ledger. Whatever the connections do, a query that
has returned has the outcome that the ledger gave when it was handled. -/

namespace CompatRegistry

open Foundation Canon Relation

namespace Ledger

/-- The ledger after some requests, of which those that it refuses leave nothing. -/
noncomputable def recordAll (requests : List (Uuid × NetMessage)) (l : Ledger) : Ledger :=
  requests.foldl (fun l m => l.record m) l

@[simp] theorem recordAll_nil (l : Ledger) : l.recordAll [] = l := rfl

@[simp] theorem recordAll_cons (m : Uuid × NetMessage) (requests : List (Uuid × NetMessage)) (l : Ledger) :
    l.recordAll (m :: requests) = (l.record m).recordAll requests := rfl

end Ledger

namespace Coordinator

theorem Serves.after {issued : List Uuid} {kept : List (Bytes × Ledger)} {s : Coordinator} {l : Ledger}
    (h : Serves issued kept s l) {requests : List (Uuid × NetMessage)} (hreq : ∀ m ∈ requests, m.2.payload.WF)
    (hnodup : (requests.map Prod.fst).Nodup) (hfresh : ∀ m ∈ requests, m.1 ∉ issued) :
    ∃ issued, Serves issued kept (after requests s) (l.recordAll requests) := by
  induction requests generalizing issued s l with
  | nil => exact ⟨issued, h⟩
  | cons m requests ih =>
    obtain ⟨hm, hreq⟩ := List.forall_mem_cons.mp hreq
    obtain ⟨hnew, hfresh⟩ := List.forall_mem_cons.mp hfresh
    rw [List.map_cons, List.nodup_cons] at hnodup
    rw [after_cons, Ledger.recordAll_cons]
    refine ih (h.request hnew hm) hreq hnodup.2 fun m' hm' => ?_
    rw [List.mem_cons, not_or]
    refine ⟨fun heq => hnodup.1 ?_, hfresh m' hm'⟩
    rw [← heq]
    exact List.mem_map_of_mem hm'

end Coordinator

namespace Server

theorem mem_map_numbered {seeds : ℕ → Uuid} {n : ℕ} {msgs : List NetMessage} {id : Uuid}
    (h : id ∈ (numbered seeds n msgs).map Prod.fst) : ∃ k, n ≤ k ∧ k < n + msgs.length ∧ id = seeds k := by
  induction msgs generalizing n with
  | nil => cases h
  | cons msg msgs ih =>
    rw [numbered, List.map_cons, List.mem_cons] at h
    rw [List.length_cons]
    obtain rfl | h := h
    · exact ⟨n, le_rfl, by omega, rfl⟩
    · obtain ⟨k, hk, hlt, heq⟩ := ih h
      exact ⟨k, by omega, by omega, heq⟩

theorem numbered_nodup {seeds : ℕ → Uuid} {n : ℕ} {msgs : List NetMessage}
    (hseeds : Set.InjOn seeds (Set.Ico n (n + msgs.length))) : ((numbered seeds n msgs).map Prod.fst).Nodup := by
  induction msgs generalizing n with
  | nil => exact List.nodup_nil
  | cons msg msgs ih =>
    rw [List.length_cons] at hseeds
    rw [numbered, List.map_cons, List.nodup_cons]
    refine ⟨fun hmem => ?_, ih (hseeds.mono (Set.Ico_subset_Ico (by omega) (by omega)))⟩
    obtain ⟨k, hk, hlt, heq⟩ := mem_map_numbered hmem
    have hsame := hseeds (Set.mem_Ico.mpr ⟨by omega, by omega⟩) (Set.mem_Ico.mpr ⟨by omega, by omega⟩) heq
    omega

/-- What one of some messages is answered, with those before it. -/
theorem outcomes_split {seeds : ℕ → Uuid} {before after : List NetMessage} {msg : NetMessage} {s : Server}
    {first last : List (Option NetMessage)} {answer : Option NetMessage}
    (h : first ++ answer :: last = outcomes seeds (before ++ msg :: after) s) (hlength : first.length = before.length) :
    answer = outcome seeds msg (afterAll seeds before s) := by
  have houtcomes : ∀ (msgs : List NetMessage) (t : Server), (outcomes seeds msgs t).length = msgs.length := by
    intro msgs
    induction msgs with
    | nil => exact fun _ => rfl
    | cons m msgs ih =>
      intro t
      rw [outcomes, List.length_cons, List.length_cons, ih]
  rw [outcomes_append, outcomes] at h
  obtain ⟨-, htail⟩ := List.append_inj h (hlength.trans (houtcomes before s).symm)
  exact (List.cons.inj htail).1

end Server

namespace System

variable {ι : Type} [DecidableEq ι]

/-- Place number `k` among the entries of one kind. -/
theorem split_at_own {α : Type} {p : α → Bool} {history : List α} {k : ℕ} {e : α}
    (h : (history.filter p)[k]? = some e) :
    ∃ before after, history = before ++ e :: after ∧ p e = true ∧ (before.filter p).length = k := by
  induction history generalizing k with
  | nil => cases h
  | cons e' history ih =>
    rw [List.filter_cons] at h
    split_ifs at h with hp
    · cases k with
      | zero =>
        obtain rfl := Option.some.inj h
        exact ⟨[], history, rfl, hp, rfl⟩
      | succ k =>
        obtain ⟨before, after, rfl, he, hlength⟩ := ih h
        exact ⟨e' :: before, after, rfl, he, by rw [List.filter_cons_of_pos hp, List.length_cons, hlength]⟩
    · obtain ⟨before, after, rfl, he, hlength⟩ := ih h
      exact ⟨e' :: before, after, rfl, he, by rw [List.filter_cons_of_neg hp, hlength]⟩

section Runs
variable {seeds : ℕ → Uuid} {x y : System ι}

/-- Only requests that can be received are handled. -/
theorem Step.receivable (h : Step seeds x y) (hx : ∀ e ∈ x.history, e.request.Receivable) :
    ∀ e ∈ y.history, e.request.Receivable := by
  cases h with
  | serve i n room =>
    intro e he
    obtain he | he := List.mem_append.mp he
    · exact hx e he
    · unfold handled at he
      split at he
      next msg hrecv =>
        obtain rfl := List.mem_singleton.mp he
        exact (Socket.recvFrame_eq_message.mp hrecv).1
      · cases he
  | _ => exact hx

theorem Steps.receivable (h : Steps seeds x y) (hx : ∀ e ∈ x.history, e.request.Receivable) :
    ∀ e ∈ y.history, e.request.Receivable := by
  induction h with
  | refl => exact hx
  | tail _ hstep ih => exact hstep.receivable ih

/-- A call that was answered has its own entry in the history. -/
theorem Linearized.entry {s : Server} (h : Linearized seeds s x) {i : ι} {k : ℕ} {request : NetMessage}
    {answer : Option NetMessage} (hcall : (x.parties i).answered[k]? = some (request, answer)) :
    ∃ before after, x.history = before ++ ⟨i, request, answer⟩ :: after ∧
      (before.filter fun e => e.party = i).length = k := by
  have hown : (x.own i)[k]? = some (request, answer) := by
    obtain ⟨rest, heq⟩ := h.calls i
    rw [← heq, List.getElem?_append_left (List.getElem?_eq_some_iff.mp hcall).1, hcall]
  rw [System.own, List.getElem?_map, Option.map_eq_some_iff] at hown
  obtain ⟨e, he, heq⟩ := hown
  obtain ⟨before, after, hsplit, hparty, hlength⟩ := split_at_own he
  obtain ⟨party, request', answer'⟩ := e
  obtain rfl : party = i := of_decide_eq_true hparty
  obtain ⟨rfl, rfl⟩ := Prod.mk.inj heq
  exact ⟨before, after, hsplit, hlength⟩

/-- What a client has got for a query, if none of its calls has failed up to it, is the one outcome
that the ledger of the requests handled before it gives, and in that sequence it stands behind as
many calls of the client as were answered before. -/
theorem completed_queries {issued : List Uuid} {kept : List (Bytes × Ledger)} {s : Server} {l : Ledger}
    (hs : Coordinator.Serves issued kept s.coordinator l) (hx : Steps seeds { server := s } x)
    (hseeds : Set.InjOn seeds (Set.Ico s.handled (s.handled + x.history.length)))
    (hfresh : ∀ n ∈ Set.Ico s.handled (s.handled + x.history.length), seeds n ∉ issued)
    (hshort : x.ShortAnswers) {i : ι} {k : ℕ} {request answer : NetMessage}
    (hcall : (x.parties i).answered[k]? = some (request, some answer)) {requirement : Bool}
    (hquery : request.type = .declared (if requirement then .queryRequirement else .queryPair)) :
    ∃ before after d, x.history = before ++ ⟨i, request, some answer⟩ :: after ∧
      (before.filter fun e => e.party = i).length = k ∧
      answer = { type := .declared .decision, payload := encDecisionWire d } ∧
      ∀ o, (l.recordAll (Server.numbered seeds s.handled (before.map Entry.request))).Answers
        (Registry.scopeOf requirement) (request.fieldUuid 1) (request.fieldUuid 2) o ↔ o = d.outcome := by
  have hlinear := (hx.inv (Inv.start seeds s) hshort).linearized
  have hreceivable := hx.receivable (List.forall_mem_nil _)
  obtain ⟨before, after, hsplit, hlength⟩ := hlinear.entry hcall
  have hanswers := hlinear.answers
  rw [hsplit, List.map_append, List.map_append, List.map_cons, List.map_cons] at hanswers
  have hanswer := Server.outcomes_split hanswers (by rw [List.length_map, List.length_map])
  have hwf : ∀ m ∈ Server.numbered seeds s.handled (before.map Entry.request), m.2.payload.WF := by
    intro m hm
    obtain ⟨e, he, heq⟩ := List.mem_map.mp (Server.mem_numbered hm)
    rw [← heq]
    exact (hreceivable e (hsplit ▸ List.mem_append_left _ he)).wf
  have hbefore : s.handled + (before.map Entry.request).length ≤ s.handled + x.history.length := by
    rw [hsplit, List.length_map, List.length_append]
    omega
  have hnodup := Server.numbered_nodup (hseeds.mono (Set.Ico_subset_Ico le_rfl hbefore))
  obtain ⟨issued', hserves⟩ := hs.after hwf hnodup fun m hm hmem => by
    obtain ⟨n, hn, hlt, heq⟩ := Server.mem_map_numbered (List.mem_map_of_mem hm)
    exact hfresh n (Set.mem_Ico.mpr ⟨hn, hlt.trans_le hbefore⟩) (heq ▸ hmem)
  obtain ⟨out, hout, hcomes⟩ := Server.outcome_eq_some hanswer.symm
  obtain ⟨d, rfl, hd⟩ := hserves.books.1.keeps.answered hserves.books.1.inv hquery hout
  exact ⟨before, after, d, hsplit, hlength, hcomes, hd⟩

/-- A client asks a coordinator about two profiles that a source has published with a rule. -/
theorem completed_queries_asked : ∃ (y : System Bool) (l : Ledger) (request answer : NetMessage),
    (y.parties true).calls = [(request, .message answer)] ∧
      ∃ before after d, y.history = before ++ ⟨true, request, some answer⟩ :: after ∧
        (before.filter fun e => e.party = true).length = 0 ∧
        answer = { type := .declared .decision, payload := encDecisionWire d } ∧
        ∀ o, (l.recordAll (Server.numbered (fun _ => uuidOf 7) 4 (before.map Entry.request))).Answers
          (ascii "pair") (request.fieldUuid 1) (request.fieldUuid 2) o ↔ o = d.outcome := by
  let request := queryRequestOf false 1 (uuidOf 1) (uuidOf 2)
  obtain ⟨l, hserves⟩ := Coordinator.serves_published
  obtain ⟨d, hd, -, hshort⟩ := RegistryClient.publishing_decides
  have houtcome : Server.outcome (fun _ => uuidOf 7) request RegistryClient.publishing =
      some { type := .declared .decision, payload := encDecisionWire d } := by
    have hcall := RegistryClient.handleRequest_of_evaluated (uuidOf 7) 1 hd
    unfold Server.outcome
    rw [hcall]
    rfl
  have hanswer : NetMessage.Receivable { type := .declared .decision, payload := encDecisionWire d } :=
    ⟨Server.encDecisionWire_wf d, (RegistryClient.encDecisionWire_size d).trans_le hshort⟩
  obtain ⟨y, hsteps, hhistory, -, hcompleted, -⟩ := (accepting_ready true RegistryClient.publishing).call_completes
    (RegistryClient.queryRequestOf_receivable false 1 (uuidOf 1) (uuidOf 2)) houtcome hanswer
  have hone : y.history = [⟨true, request, some { type := .declared .decision, payload := encDecisionWire d }⟩] := by
    simpa [accepting] using hhistory
  have hreturned : (y.parties true).calls =
      [(request, .message { type := .declared .decision, payload := encDecisionWire d })] := by
    simpa [accepting] using hcompleted
  have hsingle : Set.InjOn (fun _ : ℕ => uuidOf 7) (Set.Ico 4 (4 + y.history.length)) := by
    intro m hm n hn _
    rw [hone, Set.mem_Ico] at hm hn
    obtain ⟨hm, hm'⟩ := hm
    obtain ⟨hn, hn'⟩ := hn
    change m < 5 at hm'
    change n < 5 at hn'
    omega
  have hrun : Steps (fun _ => uuidOf 7) ({ server := RegistryClient.publishing } : System Bool) y :=
    (accepting_steps (fun _ => uuidOf 7) true RegistryClient.publishing).trans hsteps
  have hfresh : uuidOf 7 ∉ [uuidOf 0, uuidOf 2, uuidOf 1, uuidOf 9] := by decide
  refine ⟨y, l, request, _, hreturned, @completed_queries Bool _ _ y _ [] RegistryClient.publishing l hserves hrun
    hsingle (fun _ _ => hfresh) ?_ true 0 request _ ?_ false rfl⟩
  · intro e he answer hsome
    rw [hone, List.mem_singleton] at he
    rw [he] at hsome
    cases hsome
    exact hanswer.framed_lt.trans (by norm_num)
  · rw [Party.answered, hreturned]
    rfl

end Runs

end System

end CompatRegistry
