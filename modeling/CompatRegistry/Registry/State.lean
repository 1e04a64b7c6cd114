import CompatRegistry.Decision
import CompatRegistry.Foundation.UnorderedMap

/-! The state of a registry. Profile histories are never empty. The two adjacency
maps, the rules, the evidence and the cached decisions are hash maps, and the
order of their entries is the order in which they are iterated. -/

namespace CompatRegistry

open Foundation

structure ProfileRecord extends Subject where
  id : Uuid
  generation : Generation := 0
  deps : List Uuid := []
  active : Bool := true
  superseded : Bool := false
  provenance : Bytes := []
  fingerprint : Bytes := []

structure RuleRecord where
  rule : CompatibilityRule
  active : Bool := true
  superseded : Bool := false

structure Invalidation where
  target : Uuid := Uuid.zero
  generation : Generation := 0
  reason : Bytes := []
  fingerprintBefore : Bytes := []
  deriving DecidableEq

/-- The generations of one profile, oldest first. -/
structure History where
  records : List ProfileRecord
  nonempty : records ≠ []

namespace History

def back (h : History) : ProfileRecord := h.records.getLast h.nonempty

def single (p : ProfileRecord) : History := ⟨[p], by simp⟩

def push (h : History) (p : ProfileRecord) : History := ⟨h.records ++ [p], by simp⟩

/-- Update every record in place. -/
def map (f : ProfileRecord → ProfileRecord) (h : History) : History :=
  ⟨h.records.map f, by simpa using h.nonempty⟩

/-- `push_back` into the entry of a map, which is created where it is missing. -/
def pushOrSingle : Option History → ProfileRecord → History
  | some h, p => h.push p
  | none, p => single p

/-- The search from the newest record backwards for one that is active. -/
def newestActive (h : History) : Option ProfileRecord := h.records.reverse.find? (·.active)

@[simp] theorem map_records (f : ProfileRecord → ProfileRecord) (h : History) :
    (h.map f).records = h.records.map f := rfl

theorem newestActive_eq_some {h : History} {p : ProfileRecord} (hp : h.newestActive = some p) :
    p ∈ h.records ∧ p.active = true :=
  ⟨List.mem_reverse.mp (List.mem_of_find?_eq_some hp), by simpa using List.find?_some hp⟩

theorem ext_iff' {h h' : History} : h = h' ↔ h.records = h'.records := by
  cases h
  cases h'
  simp

end History

/-- An active record, made a superseded one. -/
def ProfileRecord.deactivate (p : ProfileRecord) : ProfileRecord :=
  if p.active then { p with active := false, superseded := true } else p

/-- Any record, made a superseded one. -/
def ProfileRecord.retire (p : ProfileRecord) : ProfileRecord :=
  { p with active := false, superseded := true }

structure Registry where
  profiles : UMap Uuid History := ∅
  rules : UMap Uuid RuleRecord := ∅
  evidence : UMap Uuid EvidenceRecord := ∅
  decisions : UMap Digest CompatibilityDecision := ∅
  invalidations : List Invalidation := []
  deps : UMap Uuid (List Uuid) := ∅
  reverse : UMap Uuid (List Uuid) := ∅
  registryGen : UInt64 := 0
  policyId : Uuid := Uuid.zero
  ruleGen : UInt64 := 0
  evidenceGen : UInt64 := 0

/-- An operation returns or throws, and leaves a state in both cases. -/
abbrev Step (α : Type) := Registry → Result α × Registry

namespace Registry

/-- `sort` and `unique`. -/
def sortUnique (l : List Uuid) : List Uuid := (l.insertionSort (· ≤ ·)).destutter (· ≠ ·)

/-! ### Queries -/

def findProfile (s : Registry) (id : Uuid) (includeHistory : Bool := false) : Option ProfileRecord :=
  match s.profiles.lookup id with
  | none => none
  | some h =>
    if includeHistory then some h.back
    else if h.back.active then some h.back
    else h.newestActive

def historyOf (s : Registry) (id : Uuid) : List ProfileRecord :=
  match s.profiles.lookup id with
  | none => []
  | some h => h.records

/-- The newest active record of every profile, those of one kind, in the order of their ids. -/
def currentByKind (s : Registry) (kind : Enum8 ProfileKind) : List ProfileRecord :=
  ((s.profiles.values.filterMap History.newestActive).filter (·.kind = kind)).insertionSort fun a b => a.id ≤ b.id

def queryByKind (s : Registry) (kind : Enum8 ProfileKind) : List ProfileRecord := s.currentByKind kind

def findEvidence (s : Registry) (id : Uuid) : Option EvidenceRecord := s.evidence.lookup id

def dependenciesOf (s : Registry) (id : Uuid) : List Uuid := (s.deps.lookup id).getD []

def dependentsOf (s : Registry) (id : Uuid) : List Uuid :=
  match s.reverse.lookup id with
  | none => []
  | some l => sortUnique l

/-- The newest record of an id that is active. -/
def newestActive (s : Registry) (id : Uuid) : Option ProfileRecord :=
  (s.profiles.lookup id).bind History.newestActive

end Registry

end CompatRegistry
