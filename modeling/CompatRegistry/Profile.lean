import CompatRegistry.Canon.Value

/-! Profile kinds, their field tags, and the resolution of a dotted field name
against a profile payload. -/

namespace CompatRegistry

open Foundation

inductive ProfileKind where
  | model | tokenizer | tensor | kv | kernel | graph | adapter | backend | device | protocol | policy
  | capabilitySet
  deriving DecidableEq, Repr

instance : Enumerated ProfileKind where
  code k := UInt8.ofNat k.ctorIdx
  enumerators := [.model, .tokenizer, .tensor, .kv, .kernel, .graph, .adapter, .backend, .device,
    .protocol, .policy, .capabilitySet]
  complete k := by cases k <;> decide
  code_injective := by decide

def profileKindName : Enum8 ProfileKind → Bytes
  | .declared .model => ascii "model"
  | .declared .tokenizer => ascii "tokenizer"
  | .declared .tensor => ascii "tensor"
  | .declared .kv => ascii "kv"
  | .declared .kernel => ascii "kernel"
  | .declared .graph => ascii "graph"
  | .declared .adapter => ascii "adapter"
  | .declared .backend => ascii "backend"
  | .declared .device => ascii "device"
  | .declared .protocol => ascii "protocol"
  | .declared .policy => ascii "policy"
  | .declared .capabilitySet => ascii "capability_set"
  | .undeclared _ _ => ascii "?"

/-! ### Field tags

The names that rules may use, in the order in which `tag_for` tries them. -/

def modelf : List (String × UInt32) :=
  [("model_id", 1), ("revision_id", 2), ("architecture", 3), ("family", 4), ("quantization", 5),
    ("tokenizer_id", 6), ("vocabulary_id", 7), ("parameter_count", 8), ("dtype", 10),
    ("execution_req", 11)]

def tokf : List (String × UInt32) :=
  [("tokenizer_id", 1), ("vocabulary_id", 2), ("vocab_size", 3), ("normalization", 5),
    ("chat_template", 6)]

def tns : List (String × UInt32) :=
  [("schema_id", 1), ("rank", 2), ("dtype", 5), ("layout", 6), ("alignment", 8), ("endianness", 9),
    ("semantic_role", 10)]

def kvf : List (String × UInt32) :=
  [("kv_format_id", 1), ("model_revision", 2), ("layer_count", 3), ("head_count", 4), ("head_dim", 5),
    ("dtype", 6), ("layout", 7), ("positional", 9), ("seq_context", 10)]

def kernf : List (String × UInt32) :=
  [("kernel_artifact_id", 1), ("operation", 2), ("architecture", 3), ("compute_capability", 4),
    ("abi", 5), ("runtime", 6), ("compiler", 7), ("compiler_version", 8), ("dtype", 9), ("layout", 10),
    ("shape_spec", 11), ("quantization", 13), ("interface", 14), ("generation", 15)]

def graphf : List (String × UInt32) :=
  [("graph_artifact_id", 1), ("topology", 2), ("runtime", 4), ("backend", 5), ("architecture", 6),
    ("abi", 7), ("dtype", 8), ("layout", 9), ("memory_binding", 12)]

def adapf : List (String × UInt32) :=
  [("adapter_id", 1), ("base_model_revision", 2), ("kind", 3), ("dtype", 6), ("composition", 7),
    ("generation", 9)]

def backf : List (String × UInt32) :=
  [("backend_id", 1), ("runtime", 2), ("compiler", 3), ("compiler_version", 4), ("abi", 5),
    ("codegen_target", 6), ("protocol_version", 8), ("interface_version", 9)]

def devf : List (String × UInt32) :=
  [("device_id", 1), ("vendor", 2), ("architecture", 3), ("compute_capability", 4), ("memory_model", 5),
    ("total_memory", 6), ("runtime_min", 10), ("driver_min", 11)]

def protf : List (String × UInt32) :=
  [("protocol_id", 1), ("family", 2), ("major", 3), ("minor", 4), ("message_schema_generation", 5)]

def polf : List (String × UInt32) :=
  [("policy_id", 1), ("generation", 2), ("strictness", 3), ("fallback", 5)]

/-- The first name that is equal. -/
def tagNamed (name : Bytes) (names : List (String × UInt32)) : Option UInt32 :=
  (names.find? fun f => name == ascii f.1).map Prod.snd

def tagFor (k : Enum8 ProfileKind) (name : Bytes) : Option UInt32 :=
  match k with
  | .declared .model => tagNamed name modelf
  | .declared .tokenizer => tagNamed name tokf
  | .declared .tensor => tagNamed name tns
  | .declared .kv => tagNamed name kvf
  | .declared .kernel => tagNamed name kernf
  | .declared .graph => tagNamed name graphf
  | .declared .adapter => tagNamed name adapf
  | .declared .backend => tagNamed name backf
  | .declared .device => tagNamed name devf
  | .declared .protocol => tagNamed name protf
  | .declared .policy => tagNamed name polf
  | .declared .capabilitySet => none
  | .undeclared _ _ => none

/-! ### Resolution -/

/-- The names of the entries of a nested capability record. -/
def subfields : List (String × UInt32) :=
  [("compute_capability", 1), ("max_shared_memory", 2), ("graph_support", 3),
    ("supported_dtype_classes", 4), ("kernel_target_arch", 5), ("protocol_features", 6),
    ("memory_feature_support", 7), ("max_threads_per_block", 8), ("max_blocks_per_sm", 9),
    ("regs_per_thread", 10)]

def resolveCapabilitySubfield (rec : Canon) (name : Bytes) : Option Canon :=
  (tagNamed name subfields).bind rec.field

/-- `'.'`. -/
def dot : UInt8 := 0x2E

/-- The part before the first dot. -/
def headOf (dottedName : Bytes) : Bytes := dottedName.takeWhile (· != dot)

/-- The part behind the first dot, empty where there is none. -/
def tailOf (dottedName : Bytes) : Bytes := (dottedName.dropWhile (· != dot)).tail

def resolveProfileField (kind : Enum8 ProfileKind) (profile : Canon) (dottedName : Bytes) :
    Option Canon :=
  if dottedName = [] then none else
  match tagFor kind (headOf dottedName) with
  | none => none
  | some tag =>
    match profile.field tag with
    | none => none
    | some v =>
      if tailOf dottedName = [] then some v
      else if v.kind ≠ .record then none
      else resolveCapabilitySubfield v (tailOf dottedName)

theorem resolveProfileField_wf {kind : Enum8 ProfileKind} {profile v : Canon} {name : Bytes}
    (h : profile.WF) (hv : resolveProfileField kind profile name = some v) : v.WF := by
  unfold resolveProfileField at hv
  split at hv
  · cases hv
  split at hv
  · cases hv
  split at hv
  · cases hv
  rename_i w hw
  have hwf := Canon.field_wf h hw
  split_ifs at hv
  · cases hv
    exact hwf
  · obtain ⟨sub, -, hsub⟩ := Option.bind_eq_some_iff.mp hv
    exact Canon.field_wf hwf hsub

/-! ### Edits -/

/-- Put a value in place of the field named by the head of a dotted name. -/
def applyProfileFieldEdit (kind : Enum8 ProfileKind) (payload : Canon) (dottedField : Bytes)
    (value : Canon) : Result Canon :=
  match tagFor kind (headOf dottedField) with
  | none =>
    .error (.runtimeError (ascii "apply_profile_field_edit: unknown field '" ++ dottedField ++ ascii "'"))
  | some tag =>
    match payload with
    | .record rec =>
      let edited := rec.map fun ent => if ent.1 = tag then (ent.1, value) else ent
      Canon.mkRecord (if rec.any fun ent => ent.1 = tag then edited else edited ++ [(tag, value)])
    | _ => .error (.runtimeError "apply_profile_field_edit: payload not a record")

end CompatRegistry
