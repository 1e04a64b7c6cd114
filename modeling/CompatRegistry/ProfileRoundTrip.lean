import CompatRegistry.ProfileTypes

/-! Profiles come back from their encodings, and the names of rules find their fields. A
profile comes back with its nested records in tag order and with `dynamic_dims` as ones
and zeros, which is also how its fields are found by name. -/

namespace CompatRegistry

open Foundation Canon

/-! ### Names -/

/-- The names of a kind that `tag_for` knows. -/
def namesOf : ProfileKind → List (String × UInt32)
  | .model => modelf
  | .tokenizer => tokf
  | .tensor => tns
  | .kv => kvf
  | .kernel => kernf
  | .graph => graphf
  | .adapter => adapf
  | .backend => backf
  | .device => devf
  | .protocol => protf
  | .policy => polf
  | .capabilitySet => []

theorem tagFor_eq_some {k : ProfileKind} {name : Bytes} {tag : UInt32} (h : tagFor (.declared k) name = some tag) :
    ∃ f ∈ namesOf k, name = ascii f.1 ∧ f.2 = tag := by
  have htag : tagNamed name (namesOf k) = some tag := by
    rw [← h]
    cases k <;> rfl
  obtain ⟨f, hf, rfl⟩ := Option.map_eq_some_iff.mp htag
  exact ⟨f, List.mem_of_find?_eq_some hf, by simpa using List.find?_some hf, rfl⟩

/-- No name of a table is dotted. -/
theorem namesOf_plain (k : ProfileKind) : ∀ f ∈ namesOf k, ascii f.1 ≠ [] ∧ dot ∉ ascii f.1 := by
  cases k <;> decide +kernel

/-- Without a dot a name leads to the field itself. -/
theorem resolveProfileField_plain {kind : Enum8 ProfileKind} {name : Bytes} {tag : UInt32} {c : Canon}
    (hname : name ≠ []) (hdot : dot ∉ name) (htag : tagFor kind name = some tag) :
    resolveProfileField kind c name = c.field tag := by
  have hplain : ∀ b ∈ name, (b != dot) = true := fun b hb => by simpa using ne_of_mem_of_not_mem hb hdot
  have hhead : headOf name = name := List.takeWhile_eq_self_iff.mpr hplain
  have htail : tailOf name = [] := by rw [tailOf, List.dropWhile_eq_nil_iff.mpr hplain, List.tail_nil]
  unfold resolveProfileField
  rw [if_neg hname, hhead, htag, htail]
  cases hv : c.field tag <;> simp [hv]

/-! ### Codecs -/

/-- How a profile type is written and read: its nested records, what a profile comes back
as, and its members under the names of the source, each as the value that it is written as.
The fields are put in the order of their tags, with scalars in the sequences; what was put
is read back; a name of the table leads to the member of that name. -/
structure ProfileCodec (π : Type) where
  kind : ProfileKind
  toCanon : π → Result Canon
  fromCanon : Canon → Result π
  nested : π → List Record
  normalized : π → π
  members : π → List (String × Option Canon)
  {φ : Type}
  tag : φ → UInt32
  puts : π → List (Put φ)
  writes : ∀ p, toCanon p = build tag (puts p)
  increasing : ∀ p, ((puts p).map fun put => tag put.field).Pairwise (· < ·)
  nests : ∀ p, (puts p).filterMap Put.nested? = nested p
  scalars : ∀ p, WFSeq ((puts p).flatMap Put.items)
  reads : ∀ p c, Holds tag (puts p) c → fromCanon c = .ok (normalized p)
  named : ∀ p c, Holds tag (puts p) c → ∀ f ∈ namesOf kind, ∃ m ∈ members p, m.1 = f.1 ∧ c.field f.2 = m.2

namespace ProfileCodec

variable {π : Type} (codec : ProfileCodec π) (p : π)

/-- What is read from the encoding of the canonical record of a profile, and what the names
of its kind lead to in the record. -/
structure ComesBack (c : Canon) : Prop where
  round_trip : (canonicalEncode c >>= canonicalDecode >>= codec.fromCanon) = .ok (codec.normalized p)
  resolves : ∀ name tag, tagFor (.declared codec.kind) name = some tag → ∃ m ∈ codec.members p,
    name = ascii m.1 ∧ resolveProfileField (.declared codec.kind) c name = m.2

variable {p}

theorem comesBack (hdistinct : ∀ r ∈ codec.nested p, (r.map Prod.fst).Nodup)
    (hbuilt : ∀ r ∈ codec.nested p, ∀ e ∈ r, Built e.2) (hfits : ∀ c, codec.toCanon p = .ok c → c.Fits) :
    ∃ c, codec.toCanon p = .ok c ∧ codec.ComesBack p c := by
  have hwf : ∀ r ∈ codec.nested p, WFRecord r := fun r hr => wfRecord_iff.mpr fun e he => (hbuilt r hr e he).wf
  rw [← codec.nests] at hdistinct hwf
  rw [codec.writes] at hfits ⊢
  obtain ⟨c, hc, hround, hholds⟩ := build_round_trip (codec.increasing p) (forall_distinct_iff.mpr hdistinct)
    (forall_wf hwf (codec.scalars p)) hfits (codec.reads p)
  refine ⟨c, hc, hround, fun name tag htag => ?_⟩
  obtain ⟨f, hf, rfl, rfl⟩ := tagFor_eq_some htag
  obtain ⟨hname, hdot⟩ := namesOf_plain codec.kind f hf
  obtain ⟨m, hm, hlike, hfield⟩ := codec.named p c hholds f hf
  refine ⟨m, hm, by rw [hlike], ?_⟩
  rw [resolveProfileField_plain hname hdot htag, hfield]

end ProfileCodec

/-! ### The profile types -/

namespace ModelProfile

def nested (p : ModelProfile) : List Record := [p.executionReq]

def normalized (p : ModelProfile) : ModelProfile := { p with executionReq := sortByTag p.executionReq }

def members (p : ModelProfile) : List (String × Option Canon) := [
  ("model_id", some (.uuid p.modelId)),
  ("revision_id", some (.uuid p.revisionId)),
  ("architecture", some (.str p.architecture)),
  ("family", some (.str p.family)),
  ("quantization", some (.str p.quantization)),
  ("tokenizer_id", some (.uuid p.tokenizerId)),
  ("vocabulary_id", some (.uuid p.vocabularyId)),
  ("parameter_count", p.parameterCount.map .uint),
  ("adapter_ids", some (.sequence (p.adapterIds.map .uuid))),
  ("dtype", some (.str p.dtype)),
  ("execution_req", some (.record (sortByTag p.executionReq)))]

def codec : ProfileCodec ModelProfile where
  kind := .model
  toCanon := toCanon
  fromCanon := fromCanon
  nested := nested
  normalized := normalized
  members := members
  tag := Modelf.tag
  puts := puts
  writes _ := rfl
  increasing p := by
    simp only [puts, List.map_cons, List.map_nil, Put.field]
    decide
  nests _ := rfl
  scalars p := by simp [puts, Put.items, wfSeq_map, WF]
  reads p c h := by
    simp only [Holds, puts, List.forall_mem_cons, Put.field, Put.stored] at h
    simp [fromCanon, needField, fieldOr, itemsOf, h, normalized, Function.comp_def]
  named p c h := by
    simp only [Holds, puts, List.forall_mem_cons, Put.field, Put.stored, Modelf.tag] at h
    simp [namesOf, modelf, members, h]

end ModelProfile

namespace TokenizerProfile

def nested (p : TokenizerProfile) : List Record := [p.specialTokens]

def normalized (p : TokenizerProfile) : TokenizerProfile :=
  { p with specialTokens := sortByTag p.specialTokens }

def members (p : TokenizerProfile) : List (String × Option Canon) := [
  ("tokenizer_id", some (.uuid p.tokenizerId)),
  ("vocabulary_id", some (.uuid p.vocabularyId)),
  ("vocab_size", some (.uint p.vocabSize)),
  ("special_tokens", some (.record (sortByTag p.specialTokens))),
  ("normalization", some (.str p.normalization)),
  ("chat_template", some (.str p.chatTemplate))]

def codec : ProfileCodec TokenizerProfile where
  kind := .tokenizer
  toCanon := toCanon
  fromCanon := fromCanon
  nested := nested
  normalized := normalized
  members := members
  tag := Tokf.tag
  puts := puts
  writes _ := rfl
  increasing p := by
    simp only [puts, List.map_cons, List.map_nil, Put.field]
    decide
  nests _ := rfl
  scalars _ := trivial
  reads p c h := by
    simp only [Holds, puts, List.forall_mem_cons, Put.field, Put.stored] at h
    simp [fromCanon, needField, fieldOr, h, normalized]
  named p c h := by
    simp only [Holds, puts, List.forall_mem_cons, Put.field, Put.stored, Tokf.tag] at h
    simp [namesOf, tokf, members, h]

end TokenizerProfile

namespace TensorProfile

def nested (_ : TensorProfile) : List Record := []

def normalized (p : TensorProfile) : TensorProfile :=
  { p with dynamicDims := p.dynamicDims.map fun b => if b != 0 then 1 else 0 }

def members (p : TensorProfile) : List (String × Option Canon) := [
  ("schema_id", some (.uuid p.schemaId)),
  ("rank", some (.uint p.rank)),
  ("shape", some (.sequence (p.shape.map .int))),
  ("dynamic_dims", some (.sequence (p.dynamicDims.map fun b => .bool (b != 0)))),
  ("dtype", some (.str p.dtype)),
  ("layout", some (.str p.layout)),
  ("strides", some (.sequence (p.strides.map .int))),
  ("alignment", p.alignment.map .uint),
  ("endianness", some (.str p.endianness)),
  ("semantic_role", some (.str p.semanticRole))]

def codec : ProfileCodec TensorProfile where
  kind := .tensor
  toCanon := toCanon
  fromCanon := fromCanon
  nested := nested
  normalized := normalized
  members := members
  tag := Tns.tag
  puts := puts
  writes _ := rfl
  increasing p := by
    simp only [puts, List.map_cons, List.map_nil, Put.field]
    decide
  nests _ := rfl
  scalars p := by simp [puts, Put.items, wfSeq_append, wfSeq_map, WF]
  reads p c h := by
    simp only [Holds, puts, List.forall_mem_cons, Put.field, Put.stored] at h
    simp [fromCanon, needField, fieldOr, itemsOf, h, normalized, Function.comp_def]
  named p c h := by
    simp only [Holds, puts, List.forall_mem_cons, Put.field, Put.stored, Tns.tag] at h
    simp [namesOf, tns, members, h]

end TensorProfile

namespace KvProfile

def nested (p : KvProfile) : List Record := [p.blockGeometry]

def normalized (p : KvProfile) : KvProfile := { p with blockGeometry := sortByTag p.blockGeometry }

def members (p : KvProfile) : List (String × Option Canon) := [
  ("kv_format_id", some (.uuid p.kvFormatId)),
  ("model_revision", some (.str p.modelRevision)),
  ("layer_count", some (.uint p.layerCount)),
  ("head_count", some (.uint p.headCount)),
  ("head_dim", some (.uint p.headDim)),
  ("dtype", some (.str p.dtype)),
  ("layout", some (.str p.layout)),
  ("block_geometry", some (.record (sortByTag p.blockGeometry))),
  ("positional", some (.str p.positional)),
  ("seq_context", some (.uint p.seqContext)),
  ("tokenizer_id", some (.str p.tokenizerId)),
  ("generation", some (.uint p.generation))]

def codec : ProfileCodec KvProfile where
  kind := .kv
  toCanon := toCanon
  fromCanon := fromCanon
  nested := nested
  normalized := normalized
  members := members
  tag := Kvf.tag
  puts := puts
  writes _ := rfl
  increasing p := by
    simp only [puts, List.map_cons, List.map_nil, Put.field]
    decide
  nests _ := rfl
  scalars _ := trivial
  reads p c h := by
    simp only [Holds, puts, List.forall_mem_cons, Put.field, Put.stored] at h
    simp [fromCanon, needField, fieldOr, h, normalized]
  named p c h := by
    simp only [Holds, puts, List.forall_mem_cons, Put.field, Put.stored, Kvf.tag] at h
    simp [namesOf, kvf, members, h]

end KvProfile

namespace KernelProfile

def nested (p : KernelProfile) : List Record := [p.launchGeometry]

def normalized (p : KernelProfile) : KernelProfile := { p with launchGeometry := sortByTag p.launchGeometry }

def members (p : KernelProfile) : List (String × Option Canon) := [
  ("kernel_artifact_id", some (.uuid p.kernelArtifactId)),
  ("operation", some (.str p.operation)),
  ("architecture", some (.str p.architecture)),
  ("compute_capability", some (.str p.computeCapability)),
  ("abi", some (.str p.abi)),
  ("runtime", some (.str p.runtime)),
  ("compiler", some (.str p.compiler)),
  ("compiler_version", some (.str p.compilerVersion)),
  ("dtype", some (.str p.dtype)),
  ("layout", some (.str p.layout)),
  ("shape_spec", some (.str p.shapeSpec)),
  ("launch_geometry", some (.record (sortByTag p.launchGeometry))),
  ("quantization", some (.str p.quantization)),
  ("interface", some (.str p.interface)),
  ("generation", some (.uint p.generation)),
  ("artifact_digest", some (.str p.artifactDigest))]

def codec : ProfileCodec KernelProfile where
  kind := .kernel
  toCanon := toCanon
  fromCanon := fromCanon
  nested := nested
  normalized := normalized
  members := members
  tag := Kernf.tag
  puts := puts
  writes _ := rfl
  increasing p := by
    simp only [puts, List.map_cons, List.map_nil, Put.field]
    decide
  nests _ := rfl
  scalars _ := trivial
  reads p c h := by
    simp only [Holds, puts, List.forall_mem_cons, Put.field, Put.stored] at h
    simp [fromCanon, needField, fieldOr, h, normalized]
  named p c h := by
    simp only [Holds, puts, List.forall_mem_cons, Put.field, Put.stored, Kernf.tag] at h
    simp [namesOf, kernf, members, h]

end KernelProfile

namespace GraphProfile

def nested (p : GraphProfile) : List Record := [p.launchConfig]

def normalized (p : GraphProfile) : GraphProfile := { p with launchConfig := sortByTag p.launchConfig }

def members (p : GraphProfile) : List (String × Option Canon) := [
  ("graph_artifact_id", some (.uuid p.graphArtifactId)),
  ("topology", some (.str p.topology)),
  ("dependencies", some (.sequence (p.dependencies.map .uuid))),
  ("runtime", some (.str p.runtime)),
  ("backend", some (.str p.backend)),
  ("architecture", some (.str p.architecture)),
  ("abi", some (.str p.abi)),
  ("dtype", some (.str p.dtype)),
  ("layout", some (.str p.layout)),
  ("shape_spec", some (.str p.shapeSpec)),
  ("launch_config", some (.record (sortByTag p.launchConfig))),
  ("memory_binding", some (.str p.memoryBinding)),
  ("generation", some (.uint p.generation))]

def codec : ProfileCodec GraphProfile where
  kind := .graph
  toCanon := toCanon
  fromCanon := fromCanon
  nested := nested
  normalized := normalized
  members := members
  tag := Graphf.tag
  puts := puts
  writes _ := rfl
  increasing p := by
    simp only [puts, List.map_cons, List.map_nil, Put.field]
    decide
  nests _ := rfl
  scalars p := by simp [puts, Put.items, wfSeq_map, WF]
  reads p c h := by
    simp only [Holds, puts, List.forall_mem_cons, Put.field, Put.stored] at h
    simp [fromCanon, needField, fieldOr, itemsOf, h, normalized, Function.comp_def]
  named p c h := by
    simp only [Holds, puts, List.forall_mem_cons, Put.field, Put.stored, Graphf.tag] at h
    simp [namesOf, graphf, members, h]

end GraphProfile

namespace AdapterProfile

def nested (p : AdapterProfile) : List Record := [p.rankConfig, p.activation]

def normalized (p : AdapterProfile) : AdapterProfile :=
  { p with rankConfig := sortByTag p.rankConfig, activation := sortByTag p.activation }

def members (p : AdapterProfile) : List (String × Option Canon) := [
  ("adapter_id", some (.uuid p.adapterId)),
  ("base_model_revision", some (.str p.baseModelRevision)),
  ("kind", some (.str p.kind)),
  ("rank_config", some (.record (sortByTag p.rankConfig))),
  ("target_modules", some (.sequence (p.targetModules.map .str))),
  ("dtype", some (.str p.dtype)),
  ("composition", some (.str p.composition)),
  ("activation", some (.record (sortByTag p.activation))),
  ("generation", some (.uint p.generation)),
  ("artifact_digest", some (.str p.artifactDigest))]

def codec : ProfileCodec AdapterProfile where
  kind := .adapter
  toCanon := toCanon
  fromCanon := fromCanon
  nested := nested
  normalized := normalized
  members := members
  tag := Adapf.tag
  puts := puts
  writes _ := rfl
  increasing p := by
    simp only [puts, List.map_cons, List.map_nil, Put.field]
    decide
  nests _ := rfl
  scalars p := by simp [puts, Put.items, wfSeq_map, WF]
  reads p c h := by
    simp only [Holds, puts, List.forall_mem_cons, Put.field, Put.stored] at h
    simp [fromCanon, needField, fieldOr, itemsOf, h, normalized, Function.comp_def]
  named p c h := by
    simp only [Holds, puts, List.forall_mem_cons, Put.field, Put.stored, Adapf.tag] at h
    simp [namesOf, adapf, members, h]

end AdapterProfile

namespace BackendProfile

def nested (p : BackendProfile) : List Record := [p.capabilities]

def normalized (p : BackendProfile) : BackendProfile := { p with capabilities := sortByTag p.capabilities }

def members (p : BackendProfile) : List (String × Option Canon) := [
  ("backend_id", some (.uuid p.backendId)),
  ("runtime", some (.str p.runtime)),
  ("compiler", some (.str p.compiler)),
  ("compiler_version", some (.str p.compilerVersion)),
  ("abi", some (.str p.abi)),
  ("codegen_target", some (.str p.codegenTarget)),
  ("capabilities", some (.record (sortByTag p.capabilities))),
  ("protocol_version", some (.str p.protocolVersion)),
  ("interface_version", some (.str p.interfaceVersion))]

def codec : ProfileCodec BackendProfile where
  kind := .backend
  toCanon := toCanon
  fromCanon := fromCanon
  nested := nested
  normalized := normalized
  members := members
  tag := Backf.tag
  puts := puts
  writes _ := rfl
  increasing p := by
    simp only [puts, List.map_cons, List.map_nil, Put.field]
    decide
  nests _ := rfl
  scalars _ := trivial
  reads p c h := by
    simp only [Holds, puts, List.forall_mem_cons, Put.field, Put.stored] at h
    simp [fromCanon, needField, fieldOr, h, normalized]
  named p c h := by
    simp only [Holds, puts, List.forall_mem_cons, Put.field, Put.stored, Backf.tag] at h
    simp [namesOf, backf, members, h]

end BackendProfile

namespace DeviceProfile

def nested (_ : DeviceProfile) : List Record := []

def normalized (p : DeviceProfile) : DeviceProfile := p

def members (p : DeviceProfile) : List (String × Option Canon) := [
  ("device_id", some (.uuid p.deviceId)),
  ("vendor", some (.str p.vendor)),
  ("architecture", some (.str p.architecture)),
  ("compute_capability", some (.str p.computeCapability)),
  ("memory_model", some (.str p.memoryModel)),
  ("total_memory", p.totalMemory.map .uint),
  ("supported_dtypes", some (.sequence (p.supportedDtypes.map .str))),
  ("instruction_classes", some (.sequence (p.instructionClasses.map .str))),
  ("execution_features", some (.sequence (p.executionFeatures.map .str))),
  ("runtime_min", some (.str p.runtimeMin)),
  ("driver_min", some (.str p.driverMin))]

def codec : ProfileCodec DeviceProfile where
  kind := .device
  toCanon := toCanon
  fromCanon := fromCanon
  nested := nested
  normalized := normalized
  members := members
  tag := Devf.tag
  puts := puts
  writes _ := rfl
  increasing p := by
    simp only [puts, List.map_cons, List.map_nil, Put.field]
    decide
  nests _ := rfl
  scalars p := by simp [puts, Put.items, wfSeq_append, wfSeq_map, WF]
  reads p c h := by
    simp only [Holds, puts, List.forall_mem_cons, Put.field, Put.stored] at h
    simp [fromCanon, needField, fieldOr, itemsOf, h, normalized, Function.comp_def]
  named p c h := by
    simp only [Holds, puts, List.forall_mem_cons, Put.field, Put.stored, Devf.tag] at h
    simp [namesOf, devf, members, h]

end DeviceProfile

namespace ProtocolProfile

def nested (p : ProtocolProfile) : List Record := [p.featureBits]

def normalized (p : ProtocolProfile) : ProtocolProfile := { p with featureBits := sortByTag p.featureBits }

def members (p : ProtocolProfile) : List (String × Option Canon) := [
  ("protocol_id", some (.uuid p.protocolId)),
  ("family", some (.str p.family)),
  ("major", some (.uint p.major)),
  ("minor", some (.uint p.minor)),
  ("message_schema_generation", p.messageSchemaGeneration.map .uint),
  ("feature_bits", some (.record (sortByTag p.featureBits))),
  ("required_semantics", some (.sequence (p.requiredSemantics.map .str))),
  ("optional_semantics", some (.sequence (p.optionalSemantics.map .str)))]

def codec : ProfileCodec ProtocolProfile where
  kind := .protocol
  toCanon := toCanon
  fromCanon := fromCanon
  nested := nested
  normalized := normalized
  members := members
  tag := Protf.tag
  puts := puts
  writes _ := rfl
  increasing p := by
    simp only [puts, List.map_cons, List.map_nil, Put.field]
    decide
  nests _ := rfl
  scalars p := by simp [puts, Put.items, wfSeq_append, wfSeq_map, WF]
  reads p c h := by
    simp only [Holds, puts, List.forall_mem_cons, Put.field, Put.stored] at h
    simp [fromCanon, needField, fieldOr, itemsOf, h, normalized, Function.comp_def]
  named p c h := by
    simp only [Holds, puts, List.forall_mem_cons, Put.field, Put.stored, Protf.tag] at h
    simp [namesOf, protf, members, h]

end ProtocolProfile

namespace PolicyProfile

def nested (_ : PolicyProfile) : List Record := []

def normalized (p : PolicyProfile) : PolicyProfile := p

def members (p : PolicyProfile) : List (String × Option Canon) := [
  ("policy_id", some (.uuid p.policyId)),
  ("generation", some (.uint p.generation)),
  ("strictness", some (.str p.strictness)),
  ("permitted_adaptations", some (.sequence (p.permittedAdaptations.map .str))),
  ("fallback", some (.str p.fallback))]

def codec : ProfileCodec PolicyProfile where
  kind := .policy
  toCanon := toCanon
  fromCanon := fromCanon
  nested := nested
  normalized := normalized
  members := members
  tag := Polf.tag
  puts := puts
  writes _ := rfl
  increasing p := by
    simp only [puts, List.map_cons, List.map_nil, Put.field]
    decide
  nests _ := rfl
  scalars p := by simp [puts, Put.items, wfSeq_map, WF]
  reads p c h := by
    simp only [Holds, puts, List.forall_mem_cons, Put.field, Put.stored] at h
    simp [fromCanon, needField, fieldOr, itemsOf, h, normalized, Function.comp_def]
  named p c h := by
    simp only [Holds, puts, List.forall_mem_cons, Put.field, Put.stored, Polf.tag] at h
    simp [namesOf, polf, members, h]

end PolicyProfile

/-! ### All profile types -/

inductive ProfileType where
  | model | tokenizer | tensor | kv | kernel | graph | adapter | backend | device | protocol | policy

def ProfileType.Value : ProfileType → Type
  | .model => ModelProfile
  | .tokenizer => TokenizerProfile
  | .tensor => TensorProfile
  | .kv => KvProfile
  | .kernel => KernelProfile
  | .graph => GraphProfile
  | .adapter => AdapterProfile
  | .backend => BackendProfile
  | .device => DeviceProfile
  | .protocol => ProtocolProfile
  | .policy => PolicyProfile

def ProfileType.codec : (t : ProfileType) → ProfileCodec t.Value
  | .model => ModelProfile.codec
  | .tokenizer => TokenizerProfile.codec
  | .tensor => TensorProfile.codec
  | .kv => KvProfile.codec
  | .kernel => KernelProfile.codec
  | .graph => GraphProfile.codec
  | .adapter => AdapterProfile.codec
  | .backend => BackendProfile.codec
  | .device => DeviceProfile.codec
  | .protocol => ProtocolProfile.codec
  | .policy => PolicyProfile.codec

/-- A profile whose nested records have no tag twice, and whose sizes fit, is written, comes
back from its encoding, and has its fields where the names of its kind lead. -/
theorem ProfileType.profile_comes_back (t : ProfileType) (p : t.Value)
    (hdistinct : ∀ r ∈ t.codec.nested p, (r.map Prod.fst).Nodup)
    (hbuilt : ∀ r ∈ t.codec.nested p, ∀ e ∈ r, Built e.2) (hfits : ∀ c, t.codec.toCanon p = .ok c → c.Fits) :
    ∃ c, t.codec.toCanon p = .ok c ∧
      (canonicalEncode c >>= canonicalDecode >>= t.codec.fromCanon) = .ok (t.codec.normalized p) ∧
      ∀ name tag, tagFor (.declared t.codec.kind) name = some tag → ∃ m ∈ t.codec.members p,
        name = ascii m.1 ∧ resolveProfileField (.declared t.codec.kind) c name = m.2 := by
  obtain ⟨c, hc, hback⟩ := t.codec.comesBack hdistinct hbuilt hfits
  exact ⟨c, hc, hback.round_trip, hback.resolves⟩

/-- A model without a parameter count, its nested record out of order. -/
def sampleModel : ModelProfile where
  architecture := ascii "llama"
  executionReq := [(7, .uint 1), (2, .bool true)]

theorem ProfileType.profile_comes_back_model :
    ∃ c, sampleModel.toCanon = .ok c ∧
      (canonicalEncode c >>= canonicalDecode >>= ModelProfile.fromCanon) =
        .ok { sampleModel with executionReq := [(2, .bool true), (7, .uint 1)] } ∧
      ∀ name tag, tagFor (.declared .model) name = some tag → ∃ m ∈ sampleModel.members,
        name = ascii m.1 ∧ resolveProfileField (.declared .model) c name = m.2 := by
  have hfits : ∀ c, sampleModel.toCanon = .ok c → c.Fits := by
    intro c hc
    cases hc
    exact fits_of_length _ (by decide +kernel)
  refine ProfileType.profile_comes_back .model sampleModel ?_ ?_ hfits
  · simp [codec, ModelProfile.codec, ModelProfile.nested, sampleModel]
  · simp only [codec, ModelProfile.codec, ModelProfile.nested, sampleModel, List.forall_mem_cons]
    exact ⟨⟨.uint 1, .bool true, by simp⟩, by simp⟩

end CompatRegistry
