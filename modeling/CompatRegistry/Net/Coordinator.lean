import CompatRegistry.Registry.Operations
import CompatRegistry.Registry.Evaluate
import CompatRegistry.Registry.Recover

/-! The coordinator: one handler for each type of request, over a registry and the
sources that have registered. A handler replies with a flag and a message, or an
exception escapes from it. Fresh identities are an argument of a request. -/

namespace CompatRegistry

open Foundation Canon

inductive MsgType where
  | registerSource | registerProfile | registerRule | registerEvidence | queryPair | queryRequirement
  | decision | invalidate | snapshot | ack | error | shutdown
  deriving DecidableEq, Repr

instance : Enumerated MsgType where
  code k := UInt8.ofNat (k.ctorIdx + 1)
  enumerators := [.registerSource, .registerProfile, .registerRule, .registerEvidence, .queryPair,
    .queryRequirement, .decision, .invalidate, .snapshot, .ack, .error, .shutdown]
  complete k := by cases k <;> decide
  code_injective := by decide

structure NetMessage where
  type : Enum8 MsgType := .declared .ack
  payload : Canon := .null

namespace NetMessage

/-- A uuid field; the output argument keeps its zero when there is none. -/
def fieldUuid (msg : NetMessage) (tag : UInt32) : Uuid := fieldOr uuid? msg.payload tag Uuid.zero

/-- A Str field, or the empty string. -/
def fieldStr (msg : NetMessage) (tag : UInt32) : Bytes := fieldOr str? msg.payload tag []

end NetMessage

def decConstraintWire (c : Canon) : Constraint where
  op := castField c 1 .eq
  field := fieldOr str? c 2 []
  rightField := fieldOr str? c 3 []
  expected := (c.field 4).getD .null

def errRec (m : Bytes) : Canon := ofEntries [(1, .str m)]

def ackRec : Canon := ofEntries []

def encDecisionWire (d : CompatibilityDecision) : Canon :=
  ofEntries [(1, .uint d.outcome.toUInt64), (2, .uuid d.decisionId), (3, .uuid d.ruleId),
    (4, .str d.explanation)]

def kEpochTag : UInt32 := 100

structure SourceInfo where
  bootId : Uuid
  generation : UInt64 := 1
  scope : Bytes

structure Coordinator where
  registry : Registry := {}
  epoch : UInt64 := 1
  sources : UMap Bytes SourceInfo := ∅

namespace Coordinator

/-- What one call of `handle_request` does: the flag with the response, and the state it leaves. -/
abbrev Handler := Coordinator → Result (Bool × NetMessage) × Coordinator

/-- `return false` with an error text. -/
def refuse (m : String) (s : Coordinator) : Result (Bool × NetMessage) × Coordinator :=
  (.ok (false, { payload := errRec (ascii m) }), s)

/-- `return true` with a payload. -/
def reply (payload : Canon) (s : Coordinator) : Result (Bool × NetMessage) × Coordinator :=
  (.ok (true, { payload }), s)

/-- Go on with what an operation of the registry returned; an exception escapes. -/
def andThen {α : Type} (op : Step α) (next : α → Handler) : Handler := fun s =>
  match op s.registry with
  | (.error e, registry) => (.error e, { s with registry })
  | (.ok a, registry) => next a { s with registry }

def staleEpoch (msg : NetMessage) (s : Coordinator) : Bool :=
  fieldOr uint? msg.payload kEpochTag 0 != s.epoch

/-- The check of the epoch and of the source with its boot id. -/
def notAdmitted (msg : NetMessage) (s : Coordinator) : Option String :=
  if staleEpoch msg s then some "stale coordinator epoch"
  else if (s.sources.lookup (msg.fieldStr 1)).all fun info => info.bootId != msg.fieldUuid 2 then
    some "stale SourceBootId"
  else none

/-- The checks of a profile: the epoch, the source, its boot id, its generation and its scope. -/
def profileNotAdmitted (msg : NetMessage) (s : Coordinator) : Option String :=
  if staleEpoch msg s then some "stale coordinator epoch"
  else match s.sources.lookup (msg.fieldStr 1) with
    | none => some "unknown source"
    | some info =>
      if info.bootId ≠ msg.fieldUuid 2 then some "stale SourceBootId"
      else if fieldOr uint? msg.payload 3 0 < info.generation then some "stale source generation"
      else if info.scope ≠ ascii "*" ∧ info.scope ≠ msg.fieldStr 4 then
        some "source not authorized for domain"
      else none

def registerSource (boot : Uuid) (msg : NetMessage) : Handler := fun s =>
  let source := msg.fieldStr 1
  if source = [] then refuse "missing source name" s
  else
    let s := { s with sources := s.sources.insert source { bootId := boot, scope := msg.fieldStr 2 } }
    reply (ofEntries [(1, .uuid boot), (2, .uint s.epoch), (3, .uint 1)]) s

/-- The generation of the source becomes the one in the request. -/
def setGeneration (msg : NetMessage) (s : Coordinator) : Coordinator :=
  let sgen := fieldOr uint? msg.payload 3 0
  { s with sources := s.sources.modify (msg.fieldStr 1) (fun info => { info with generation := sgen }) }

def registerProfile (seed : Uuid) (msg : NetMessage) : Handler := fun s =>
  match msg.payload.field 5, msg.payload.field 6 with
  | some (.record prof), some (.uint kind) =>
    match profileNotAdmitted msg s with
    | some m => refuse m s
    | none =>
      andThen (Registry.registerProfile seed (Enum8.cast kind) (.record prof) [] [])
        (fun pid s => reply (ofEntries [(1, .uuid pid)]) (setGeneration msg s)) s
  | _, _ => refuse "bad profile" s

def wireRule (msg : NetMessage) : CompatibilityRule where
  ruleId := msg.fieldUuid 4
  scope := msg.fieldStr 6
  domain := msg.fieldStr 7
  priority := (fieldOr int? msg.payload 8 0).toInt32
  outcome := castField msg.payload 9 .compatible
  required := (fieldOr seq? msg.payload 10 []).map decConstraintWire
  incompatibleWith := (fieldOr seq? msg.payload 11 []).map decConstraintWire
  leftKind := ((msg.payload.field 12).bind uint?).map Enum8.cast
  rightKind := ((msg.payload.field 13).bind uint?).map Enum8.cast

/-- The handler of a mutation whose source is checked first and which only acknowledges what
the registry has done. -/
def acknowledge {α : Type} (op : Step α) (msg : NetMessage) : Handler := fun s =>
  match notAdmitted msg s with
  | some m => refuse m s
  | none => andThen op (fun _ => reply ackRec) s

theorem acknowledge_of_some {α : Type} {msg : NetMessage} {s : Coordinator} {m : String}
    (h : notAdmitted msg s = some m) (op : Step α) : acknowledge op msg s = refuse m s := by
  rw [acknowledge, h]

theorem acknowledge_of_none {α : Type} {msg : NetMessage} {s : Coordinator} (h : notAdmitted msg s = none)
    (op : Step α) : acknowledge op msg s = andThen op (fun _ => reply ackRec) s := by
  rw [acknowledge, h]

def registerRule (msg : NetMessage) : Handler := acknowledge (Registry.registerRule (wireRule msg)) msg

def wireEvidence (seed : Uuid) (msg : NetMessage) : EvidenceRecord where
  id := seed
  field := msg.fieldStr 4
  value := (msg.payload.field 5).getD .null

def registerEvidence (seed : Uuid) (msg : NetMessage) : Handler :=
  acknowledge (Registry.registerEvidence (wireEvidence seed msg)) msg

/-- The two queries; the response is a decision. -/
def query (requirement : Bool) (msg : NetMessage) : Handler :=
  andThen (Registry.evaluateWith requirement (msg.fieldUuid 1) (msg.fieldUuid 2)) fun d s =>
    (.ok (true, { type := .declared .decision, payload := encDecisionWire d }), s)

def invalidate (msg : NetMessage) : Handler :=
  acknowledge (Registry.invalidateProfile (msg.fieldUuid 4) (msg.fieldStr 5)) msg

def snapshot : Handler :=
  andThen (fun registry => (registry.snapshot, registry)) fun bytes => reply (ofEntries [(1, .bytes bytes)])

/-- `handle_request`; `seed` is what `genseed` gives during the call. -/
def handleRequest (seed : Uuid) (msg : NetMessage) : Handler :=
  match msg.type with
  | .declared .registerSource => registerSource seed msg
  | .declared .registerProfile => registerProfile seed msg
  | .declared .registerRule => registerRule msg
  | .declared .registerEvidence => registerEvidence seed msg
  | .declared .queryPair => query false msg
  | .declared .queryRequirement => query true msg
  | .declared .invalidate => invalidate msg
  | .declared .snapshot => snapshot
  | .declared .shutdown => reply ackRec
  | _ => refuse "unknown message type"

/-- The calls of a run, each with the state in which it is made. -/
def trace : List (Uuid × NetMessage) → Coordinator → List (Coordinator × Uuid × NetMessage)
  | [], _ => []
  | (seed, msg) :: rest, s => (s, seed, msg) :: trace rest (handleRequest seed msg s).2

end Coordinator

end CompatRegistry
