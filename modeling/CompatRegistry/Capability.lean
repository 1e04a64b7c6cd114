import CompatRegistry.Canon.Fields

/-! Capability sets: a sorted vector of tagged values behind `std::lower_bound`.
`put_` compares the key it finds with the one asked for. `has`, the getters and
`unset` do not, so for an absent tag they act on the entry of the next stored
tag. The abstract set is a partial map from tags to values, and the two are
compared over arbitrary sequences of calls. -/

namespace CompatRegistry

open Foundation Canon

/-- Read an entry of a record. -/
def Canon.uintSub? (tag : UInt32) (c : Canon) : Option UInt64 := (c.field tag).bind uint?

/-- `CapabilitySet::Kind`. -/
inductive CapabilityKind where
  | device | backend | runtime | protocol | toolchain | kernel | generic
  deriving DecidableEq, Repr

instance : Enumerated CapabilityKind where
  code k := UInt8.ofNat k.ctorIdx
  enumerators := [.device, .backend, .runtime, .protocol, .toolchain, .kernel, .generic]
  complete k := by cases k <;> decide
  code_injective := by decide

structure CapabilitySet where
  id : Uuid
  generation : Generation
  kind : Enum8 CapabilityKind
  caps : Record
  sorted : SortedMap.Sorted caps

namespace CapabilitySet

/-- The constructor. -/
def new (i : Uuid) (g : Generation) (k : Enum8 CapabilityKind) : CapabilitySet :=
  ⟨i, g, k, [], by simp [SortedMap.Sorted]⟩

/-- The entry at the lower bound of the tag; `none` is `end()`. -/
def find_ (s : CapabilitySet) (tag : UInt32) : Option (UInt32 × Canon) :=
  (SortedMap.lowerBound tag s.caps).head?

def put_ (s : CapabilitySet) (tag : UInt32) (v : Canon) : CapabilitySet :=
  { s with caps := SortedMap.put tag v s.caps, sorted := SortedMap.sorted_put s.sorted }

def has (s : CapabilitySet) (tag : UInt32) : Bool := (s.find_ tag).isSome

/-- A getter reads the entry it finds at one kind. -/
def get {α : Type} (read : Canon → Option α) (s : CapabilitySet) (tag : UInt32) : Option α :=
  (s.find_ tag).bind fun e => read e.2

def getBool : CapabilitySet → UInt32 → Option Bool := get bool?

def getUint : CapabilitySet → UInt32 → Option UInt64 := get uint?

def getFloat : CapabilitySet → UInt32 → Option FiniteDouble := get float?

def getStr : CapabilitySet → UInt32 → Option Bytes := get str?

def getUintSub (s : CapabilitySet) (outer tag : UInt32) : Option UInt64 := get (uintSub? tag) s outer

def setBool (s : CapabilitySet) (tag : UInt32) (v : Bool) : Result CapabilitySet :=
  .ok (s.put_ tag (.bool v))

def setUint (s : CapabilitySet) (tag : UInt32) (v : UInt64) : Result CapabilitySet :=
  .ok (s.put_ tag (.uint v))

def setFloat (s : CapabilitySet) (tag : UInt32) (v : Binary64) : Result CapabilitySet := do
  let c ← mkFloat v
  .ok (s.put_ tag c)

def setStr (s : CapabilitySet) (tag : UInt32) (v : Bytes) : Result CapabilitySet :=
  .ok (s.put_ tag (.str v))

def setRecord (s : CapabilitySet) (tag : UInt32) (r : Record) : Result CapabilitySet := do
  let c ← mkRecord r
  .ok (s.put_ tag c)

def unset (s : CapabilitySet) (tag : UInt32) : CapabilitySet :=
  match s.find_ tag with
  | none => s
  | some _ =>
    { s with
      caps := SortedMap.eraseLowerBound tag s.caps
      sorted := SortedMap.sorted_eraseLowerBound s.sorted }

/-! ### Calls -/

inductive Call where
  | setBool (tag : UInt32) (v : Bool)
  | setUint (tag : UInt32) (v : UInt64)
  | setFloat (tag : UInt32) (v : Binary64)
  | setStr (tag : UInt32) (v : Bytes)
  | setRecord (tag : UInt32) (r : Record)
  | unset (tag : UInt32)

/-- The set after a call; a call that throws leaves it as it was. -/
def step (s : CapabilitySet) (c : Call) : CapabilitySet :=
  let result := match c with
    | .setBool tag v => s.setBool tag v
    | .setUint tag v => s.setUint tag v
    | .setFloat tag v => s.setFloat tag v
    | .setStr tag v => s.setStr tag v
    | .setRecord tag r => s.setRecord tag r
    | .unset tag => .ok (s.unset tag)
  match result with
  | .ok s' => s'
  | .error _ => s

def run (s : CapabilitySet) (calls : List Call) : CapabilitySet := calls.foldl step s

/-! ### The abstract map -/

/-- What a capability set is for: a partial map from tags to values. -/
abbrev Spec := UInt32 → Option Canon

/-- The tag that a call writes and what it stores there, unless it throws. -/
def Call.write : Call → Result (UInt32 × Option Canon)
  | .setBool tag v => .ok (tag, some (.bool v))
  | .setUint tag v => .ok (tag, some (.uint v))
  | .setFloat tag v => (mkFloat v).map fun c => (tag, some c)
  | .setStr tag v => .ok (tag, some (.str v))
  | .setRecord tag r => (mkRecord r).map fun c => (tag, some c)
  | .unset tag => .ok (tag, none)

def Spec.step (m : Spec) (c : Call) : Spec :=
  match c.write with
  | .ok (tag, v) => Function.update m tag v
  | .error _ => m

/-- The map after a sequence of calls on a new set. -/
def Spec.run (calls : List Call) : Spec := calls.foldl Spec.step fun _ => none

/-- Everything the observers say about one tag. -/
@[ext] structure Reading where
  has : Bool
  bool : Option Bool
  uint : Option UInt64
  float : Option FiniteDouble
  str : Option Bytes
  uintSub : UInt32 → Option UInt64

def reading (s : CapabilitySet) (tag : UInt32) : Reading where
  has := s.has tag
  bool := s.getBool tag
  uint := s.getUint tag
  float := s.getFloat tag
  str := s.getStr tag
  uintSub := s.getUintSub tag

/-- What they should say where `v` is stored, or nothing is. -/
def Reading.of (v : Option Canon) : Reading where
  has := v.isSome
  bool := v.bind bool?
  uint := v.bind uint?
  float := v.bind float?
  str := v.bind str?
  uintSub tag := v.bind (uintSub? tag)

/-- `unset` removes the entry of the tag and no other. -/
def UnsetsOnly (s : CapabilitySet) (tag : UInt32) : Prop :=
  ∀ e, e ∈ (s.unset tag).caps ↔ e ∈ s.caps ∧ e.1 ≠ tag

/-- At one tag the set behaves as the map `m`: the observers read the value of
the tag, and `unset` takes away its entry alone and no other tag's reading. -/
def Behaves (s : CapabilitySet) (m : Spec) (tag : UInt32) : Prop :=
  s.reading tag = .of (m tag) ∧ s.UnsetsOnly tag ∧
    ∀ tag' ≠ tag, (s.unset tag).reading tag' = s.reading tag'

/-- The tag is stored, or it is above every stored tag. -/
def Ready (m : Spec) (tag : UInt32) : Prop :=
  (m tag).isSome ∨ ∀ tag', (m tag').isSome → tag' < tag

/-- Every `unset` among the calls is at a tag that is ready for it. -/
def UnsetsReady (calls : List Call) : Prop :=
  ∀ p tag, p ++ [.unset tag] <+: calls → Ready (Spec.run p) tag

/-- The entries of the set are those of the map. -/
def Represents (s : CapabilitySet) (m : Spec) : Prop := ∀ tag v, (tag, v) ∈ s.caps ↔ m tag = some v

/-! ### One call -/

theorem reading_eq (s : CapabilitySet) (tag : UInt32) :
    s.reading tag = .of ((s.find_ tag).map Prod.snd) := by
  unfold reading Reading.of has getBool getUint getFloat getStr get
  cases h : s.find_ tag with
  | none =>
    simp only [Option.isSome_none, Option.bind_none, Option.map_none, Reading.mk.injEq, true_and]
    funext sub
    simp [getUintSub, get, h]
  | some e =>
    simp only [Option.isSome_some, Option.bind_some, Option.map_some, Reading.mk.injEq, true_and]
    funext sub
    simp [getUintSub, get, h]

theorem unset_caps (s : CapabilitySet) (tag : UInt32) :
    (s.unset tag).caps = SortedMap.eraseLowerBound tag s.caps := by
  unfold unset find_
  split
  next h =>
    have hnil : SortedMap.lowerBound tag s.caps = [] := by simpa using h
    conv_lhs => rw [← SortedMap.below_append_lowerBound tag s.caps]
    simp [SortedMap.eraseLowerBound, hnil]
  next => rfl

/-- A call stores what the map stores, unless it is an `unset`. -/
theorem step_eq_put {s : CapabilitySet} {c : Call} {tag : UInt32} {v : Canon}
    (h : c.write = .ok (tag, some v)) : s.step c = s.put_ tag v := by
  cases c with
  | setFloat t x =>
    simp only [Call.write] at h
    cases hx : mkFloat x with
    | ok c =>
      rw [hx] at h
      simp only [Except.map, Except.ok.injEq, Prod.mk.injEq, Option.some.injEq] at h
      obtain ⟨rfl, rfl⟩ := h
      simp [step, setFloat, hx]
    | error e => simp [hx, Except.map] at h
  | setRecord t r =>
    simp only [Call.write] at h
    cases hx : mkRecord r with
    | ok c =>
      rw [hx] at h
      simp only [Except.map, Except.ok.injEq, Prod.mk.injEq, Option.some.injEq] at h
      obtain ⟨rfl, rfl⟩ := h
      simp [step, setRecord, hx]
    | error e => simp [hx, Except.map] at h
  | unset t => simp [Call.write] at h
  | _ =>
    simp only [Call.write, Except.ok.injEq, Prod.mk.injEq, Option.some.injEq] at h
    obtain ⟨rfl, rfl⟩ := h
    rfl

theorem write_eq_none {c : Call} {tag : UInt32} (h : c.write = .ok (tag, none)) : c = .unset tag := by
  cases c with
  | setFloat t x => cases hx : mkFloat x <;> simp [Call.write, hx, Except.map] at h
  | setRecord t r => cases hx : mkRecord r <;> simp [Call.write, hx, Except.map] at h
  | unset t =>
    simp only [Call.write, Except.ok.injEq, Prod.mk.injEq, and_true] at h
    rw [h]
  | _ => simp [Call.write] at h

theorem step_of_error {s : CapabilitySet} {c : Call} {e : Fault} (h : c.write = .error e) :
    s.step c = s := by
  cases c with
  | setFloat t x => cases hx : mkFloat x <;> simp_all [Call.write, step, setFloat, Except.map]
  | setRecord t r => cases hx : mkRecord r <;> simp_all [Call.write, step, setRecord, Except.map]
  | _ => simp [Call.write] at h

/-! ### One state -/

section Represents

variable {s : CapabilitySet} {m : Spec} (hrep : Represents s m)
include hrep

theorem Represents.put_ (tag : UInt32) (v : Canon) :
    Represents (s.put_ tag v) (Function.update m tag (some v)) := by
  intro t w
  show (t, w) ∈ SortedMap.put tag v s.caps ↔ _
  rw [SortedMap.mem_put s.sorted, hrep t w, Function.update_apply]
  split_ifs with h
  · simp [h, eq_comm]
  · simp [h]

/-- The lower bound of a ready tag is the entry of the tag, or the end. -/
theorem Represents.find_of_ready {tag : UInt32} (hready : Ready m tag) :
    s.find_ tag = (m tag).map fun v => (tag, v) := by
  have hmem : ∀ e ∈ SortedMap.lowerBound tag s.caps, tag ≤ e.1 ∧ m e.1 = some e.2 := by
    intro e he
    refine ⟨SortedMap.le_of_mem_lowerBound s.sorted he, (hrep e.1 e.2).mp ?_⟩
    rw [← SortedMap.below_append_lowerBound tag s.caps]
    exact List.mem_append_right _ he
  cases hm : m tag with
  | none =>
    -- nothing is stored from the tag on
    have hlt : ∀ tag', (m tag').isSome → tag' < tag := hready.resolve_left (by simp [hm])
    cases hlb : SortedMap.lowerBound tag s.caps with
    | nil => simp [find_, hlb]
    | cons e rest =>
      obtain ⟨hle, he⟩ := hmem e (by simp [hlb])
      exact absurd (hlt e.1 (by simp [he])) (not_lt.mpr hle)
  | some v =>
    have hfind := (SortedMap.find_eq_some_iff s.sorted).mpr ((hrep tag v).mpr hm)
    rw [SortedMap.find] at hfind
    unfold find_
    cases hlb : SortedMap.lowerBound tag s.caps with
    | nil => simp [hlb] at hfind
    | cons e rest =>
      obtain ⟨t, w⟩ := e
      rw [hlb] at hfind
      simp only at hfind
      split_ifs at hfind with ht
      simp only [Option.some.injEq] at hfind
      rw [ht, hfind]
      rfl

theorem Represents.reading_of_ready {tag : UInt32} (hready : Ready m tag) :
    s.reading tag = .of (m tag) := by
  rw [reading_eq, hrep.find_of_ready hready]
  cases m tag <;> rfl

/-- An absent tag below a stored one is reported as present. -/
theorem Represents.has_of_not_ready {tag : UInt32} (hready : ¬ Ready m tag) :
    s.has tag = true ∧ m tag = none := by
  simp only [Ready, not_or, Bool.not_eq_true, Option.isSome_eq_false_iff, Option.isNone_iff_eq_none,
    not_forall, not_lt] at hready
  obtain ⟨hm, tag', hsome, hle⟩ := hready
  refine ⟨?_, hm⟩
  obtain ⟨v, hv⟩ := Option.isSome_iff_exists.mp hsome
  have hmem := (hrep tag' v).mpr hv
  rw [← SortedMap.below_append_lowerBound tag s.caps, List.mem_append] at hmem
  rcases hmem with hmem | hmem
  · exact absurd (SortedMap.mem_below hmem) (not_lt.mpr hle)
  · unfold has find_
    rw [List.isSome_head?]
    simp [List.ne_nil_of_mem hmem]

theorem Represents.reading_iff_ready (tag : UInt32) :
    s.reading tag = .of (m tag) ↔ Ready m tag := by
  refine ⟨fun h => ?_, hrep.reading_of_ready⟩
  by_contra hready
  obtain ⟨hhas, hm⟩ := hrep.has_of_not_ready hready
  have : s.has tag = (m tag).isSome := congrArg Reading.has h
  rw [hhas, hm] at this
  simp at this

theorem Represents.unsetsOnly {tag : UInt32} (hready : Ready m tag) : s.UnsetsOnly tag := by
  intro e
  rw [unset_caps, SortedMap.mem_eraseLowerBound s.sorted]
  have hfind : (SortedMap.lowerBound tag s.caps).head? = _ := hrep.find_of_ready hready
  rw [hfind]
  refine and_congr_right fun he => not_congr ?_
  rw [show e = (e.1, e.2) from rfl, hrep] at he
  constructor
  · intro h
    obtain ⟨v, -, rfl⟩ := Option.map_eq_some_iff.mp h
    rfl
  · intro h
    rw [← h, he]
    rfl

theorem Represents.unset {tag : UInt32} (hready : Ready m tag) :
    Represents (s.unset tag) (Function.update m tag none) := by
  intro t v
  rw [hrep.unsetsOnly hready, hrep, Function.update_apply]
  split_ifs with h
  · simp [h]
  · simp [h]

theorem Represents.behaves (hready : ∀ tag, Ready m tag) (tag : UInt32) : Behaves s m tag := by
  refine ⟨hrep.reading_of_ready (hready tag), hrep.unsetsOnly (hready tag), fun tag' hne => ?_⟩
  have hready' : Ready (Function.update m tag none) tag' := by
    rcases hready tag' with h | h
    · exact .inl (by rwa [Function.update_of_ne hne])
    · refine .inr fun t ht => h t ?_
      rw [Function.update_apply] at ht
      split_ifs at ht
      · simp at ht
      · exact ht
  rw [(hrep.unset (hready tag)).reading_of_ready hready', Function.update_of_ne hne,
    hrep.reading_of_ready (hready tag')]

end Represents

/-! ### Runs -/

theorem UnsetsReady.mono {p calls : List Call} (h : UnsetsReady calls) (hp : p <+: calls) :
    UnsetsReady p := fun q tag hq => h q tag (hq.trans hp)

/-- As long as every `unset` is at a ready tag, the set holds what the map holds. -/
theorem represents_run {i : Uuid} {g : Generation} {k : Enum8 CapabilityKind} {calls : List Call}
    (h : UnsetsReady calls) : Represents ((new i g k).run calls) (Spec.run calls) := by
  induction calls using List.reverseRecOn with
  | nil =>
    intro tag v
    simp [run, new, Spec.run]
  | append_singleton p c ih =>
    have hp := ih (h.mono (List.prefix_append p [c]))
    simp only [run, Spec.run, List.foldl_append, List.foldl_cons, List.foldl_nil] at hp ⊢
    rw [Spec.step]
    cases hc : c.write with
    | error e => rwa [step_of_error hc]
    | ok w =>
      obtain ⟨tag, v⟩ := w
      cases v with
      | some v =>
        rw [step_eq_put hc]
        exact hp.put_ tag v
      | none =>
        obtain rfl := write_eq_none hc
        exact hp.unset (h p tag List.prefix_rfl)

/-- Where the tags that a run stores leave no gap, in every state, every `unset`
is at a ready tag. -/
theorem unsetsReady_of_ready {calls : List Call}
    (h : ∀ p, p <+: calls → ∀ tag, Ready (Spec.run p) tag) : UnsetsReady calls :=
  fun p tag hp => h p ((List.prefix_append p _).trans hp) tag

/-- A set behaves as a map at every tag and in every state of a run exactly when
in each of these states every absent tag is above the stored ones. In a run that
calls `unset` at ready tags only, the observers are right at the ready tags. -/
theorem behaves_iff_ready (i : Uuid) (g : Generation) (k : Enum8 CapabilityKind) (calls : List Call) :
    ((∀ p, p <+: calls → ∀ tag, Behaves ((new i g k).run p) (Spec.run p) tag) ↔
        ∀ p, p <+: calls → ∀ tag, Ready (Spec.run p) tag) ∧
      (UnsetsReady calls → ∀ tag,
        (((new i g k).run calls).reading tag = .of (Spec.run calls tag) ∧
          ((new i g k).run calls).UnsetsOnly tag) ↔ Ready (Spec.run calls) tag) := by
  refine ⟨⟨fun h p => ?_, fun h p hp => ?_⟩, fun h tag => ⟨fun hb => ?_, fun hr => ?_⟩⟩
  · -- on the length of the prefix: shorter ones are ready, so this one is represented
    induction hn : p.length using Nat.strong_induction_on generalizing p with
    | _ n ih =>
      intro hp tag
      have hunsets : UnsetsReady p := by
        intro q tag' hq
        have hlt : q.length < n := by
          have := hq.length_le
          simp only [List.length_append, List.length_singleton] at this
          omega
        exact ih q.length hlt q rfl ((List.prefix_append q _).trans (hq.trans hp)) tag'
      exact ((represents_run hunsets).reading_iff_ready tag).mp (h p hp tag).1
  · have hunsets := (unsetsReady_of_ready h).mono hp
    exact (represents_run hunsets).behaves (h p hp)
  · exact ((represents_run h).reading_iff_ready tag).mp hb.1
  · exact ⟨(represents_run h).reading_of_ready hr, (represents_run h).unsetsOnly hr⟩

/-- After `set_uint(5, 1)` the set says that tag 3 is present. -/
theorem not_behaves_absent :
    ¬ Behaves ((new Uuid.zero 0 (.declared .generic)).run [.setUint 5 1]) (Spec.run [.setUint 5 1]) 3 := by
  rintro ⟨h, -⟩
  have hhas := congrArg Reading.has h
  revert hhas
  decide

end CapabilitySet

end CompatRegistry
