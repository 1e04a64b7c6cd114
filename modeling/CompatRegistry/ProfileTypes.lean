import CompatRegistry.Canon.Puts
import CompatRegistry.Profile

/-! The eleven profile types: their fields with the tags, how a profile is written as a
canonical record and how it is read. The reader throws where an identity or one of the
strings it insists on is missing; any other field of the wrong kind keeps its default. -/

namespace CompatRegistry

open Foundation Canon

/-! ### Field tags -/

inductive Modelf where
  | modelId | revisionId | architecture | family | quantization | tokenizerId | vocabularyId
  | parameterCount | adapterIds | dtype | executionReq

def Modelf.tag : Modelf → UInt32
  | .modelId => 1 | .revisionId => 2 | .architecture => 3 | .family => 4 | .quantization => 5
  | .tokenizerId => 6 | .vocabularyId => 7 | .parameterCount => 8 | .adapterIds => 9 | .dtype => 10
  | .executionReq => 11

inductive Tokf where
  | tokenizerId | vocabularyId | vocabSize | specialTokens | normalization | chatTemplate

def Tokf.tag : Tokf → UInt32
  | .tokenizerId => 1 | .vocabularyId => 2 | .vocabSize => 3 | .specialTokens => 4
  | .normalization => 5 | .chatTemplate => 6

inductive Tns where
  | schemaId | rank | shape | dynamicDims | dtype | layout | strides | alignment | endianness
  | semanticRole

def Tns.tag : Tns → UInt32
  | .schemaId => 1 | .rank => 2 | .shape => 3 | .dynamicDims => 4 | .dtype => 5 | .layout => 6
  | .strides => 7 | .alignment => 8 | .endianness => 9 | .semanticRole => 10

inductive Kvf where
  | kvFormatId | modelRevision | layerCount | headCount | headDim | dtype | layout | blockGeometry
  | positional | seqContext | tokenizerId | generation

def Kvf.tag : Kvf → UInt32
  | .kvFormatId => 1 | .modelRevision => 2 | .layerCount => 3 | .headCount => 4 | .headDim => 5
  | .dtype => 6 | .layout => 7 | .blockGeometry => 8 | .positional => 9 | .seqContext => 10
  | .tokenizerId => 11 | .generation => 12

inductive Kernf where
  | kernelArtifactId | operation | architecture | computeCapability | abi | runtime | compiler
  | compilerVersion | dtype | layout | shapeSpec | launchGeometry | quantization | interface
  | generation | artifactDigest

def Kernf.tag : Kernf → UInt32
  | .kernelArtifactId => 1 | .operation => 2 | .architecture => 3 | .computeCapability => 4
  | .abi => 5 | .runtime => 6 | .compiler => 7 | .compilerVersion => 8 | .dtype => 9 | .layout => 10
  | .shapeSpec => 11 | .launchGeometry => 12 | .quantization => 13 | .interface => 14
  | .generation => 15 | .artifactDigest => 16

inductive Graphf where
  | graphArtifactId | topology | dependencies | runtime | backend | architecture | abi | dtype
  | layout | shapeSpec | launchConfig | memoryBinding | generation

def Graphf.tag : Graphf → UInt32
  | .graphArtifactId => 1 | .topology => 2 | .dependencies => 3 | .runtime => 4 | .backend => 5
  | .architecture => 6 | .abi => 7 | .dtype => 8 | .layout => 9 | .shapeSpec => 10
  | .launchConfig => 11 | .memoryBinding => 12 | .generation => 13

inductive Adapf where
  | adapterId | baseModelRevision | kind | rankConfig | targetModules | dtype | composition
  | activation | generation | artifactDigest

def Adapf.tag : Adapf → UInt32
  | .adapterId => 1 | .baseModelRevision => 2 | .kind => 3 | .rankConfig => 4 | .targetModules => 5
  | .dtype => 6 | .composition => 7 | .activation => 8 | .generation => 9 | .artifactDigest => 10

inductive Backf where
  | backendId | runtime | compiler | compilerVersion | abi | codegenTarget | capabilities
  | protocolVersion | interfaceVersion

def Backf.tag : Backf → UInt32
  | .backendId => 1 | .runtime => 2 | .compiler => 3 | .compilerVersion => 4 | .abi => 5
  | .codegenTarget => 6 | .capabilities => 7 | .protocolVersion => 8 | .interfaceVersion => 9

inductive Devf where
  | deviceId | vendor | architecture | computeCapability | memoryModel | totalMemory
  | supportedDtypes | instructionClasses | executionFeatures | runtimeMin | driverMin

def Devf.tag : Devf → UInt32
  | .deviceId => 1 | .vendor => 2 | .architecture => 3 | .computeCapability => 4 | .memoryModel => 5
  | .totalMemory => 6 | .supportedDtypes => 7 | .instructionClasses => 8 | .executionFeatures => 9
  | .runtimeMin => 10 | .driverMin => 11

inductive Protf where
  | protocolId | family | major | minor | messageSchemaGeneration | featureBits | requiredSemantics
  | optionalSemantics

def Protf.tag : Protf → UInt32
  | .protocolId => 1 | .family => 2 | .major => 3 | .minor => 4 | .messageSchemaGeneration => 5
  | .featureBits => 6 | .requiredSemantics => 7 | .optionalSemantics => 8

inductive Polf where
  | policyId | generation | strictness | permittedAdaptations | fallback

def Polf.tag : Polf → UInt32
  | .policyId => 1 | .generation => 2 | .strictness => 3 | .permittedAdaptations => 4 | .fallback => 5

/-! ### Model -/

structure ModelProfile where
  modelId : Uuid := Uuid.zero
  revisionId : Uuid := Uuid.zero
  architecture : Bytes := []
  family : Bytes := []
  quantization : Bytes := []
  tokenizerId : Uuid := Uuid.zero
  vocabularyId : Uuid := Uuid.zero
  parameterCount : Option UInt64 := none
  adapterIds : List Uuid := []
  dtype : Bytes := []
  executionReq : Record := []

namespace ModelProfile

def puts (p : ModelProfile) : List (Put Modelf) := [
  .uuid .modelId p.modelId,
  .uuid .revisionId p.revisionId,
  .str .architecture p.architecture,
  .str .family p.family,
  .str .quantization p.quantization,
  .uuid .tokenizerId p.tokenizerId,
  .uuid .vocabularyId p.vocabularyId,
  .uintIf .parameterCount p.parameterCount,
  .seq .adapterIds (p.adapterIds.map .uuid),
  .str .dtype p.dtype,
  .record .executionReq p.executionReq]

def toCanon (p : ModelProfile) : Result Canon := build Modelf.tag p.puts

def fromCanon (c : Canon) : Result ModelProfile := do
  let str f := needField str? c (Modelf.tag f) "ModelProfile: missing string field"
  let modelId ← needField uuid? c (Modelf.tag .modelId) "ModelProfile: missing model_id"
  let revisionId ← needField uuid? c (Modelf.tag .revisionId) "ModelProfile: missing revision_id"
  let architecture ← str .architecture
  let family ← str .family
  let quantization ← str .quantization
  let tokenizerId ← needField uuid? c (Modelf.tag .tokenizerId) "ModelProfile: missing tokenizer_id"
  let vocabularyId ← needField uuid? c (Modelf.tag .vocabularyId) "ModelProfile: missing vocabulary_id"
  let dtype ← str .dtype
  .ok {
    modelId, revisionId, architecture, family, quantization, tokenizerId, vocabularyId, dtype
    parameterCount := (c.field (Modelf.tag .parameterCount)).bind uint?
    adapterIds := itemsOf uuid? c (Modelf.tag .adapterIds)
    executionReq := fieldOr record? c (Modelf.tag .executionReq) [] }

end ModelProfile

/-! ### Tokenizer -/

structure TokenizerProfile where
  tokenizerId : Uuid := Uuid.zero
  vocabularyId : Uuid := Uuid.zero
  vocabSize : UInt64 := 0
  specialTokens : Record := []
  normalization : Bytes := []
  chatTemplate : Bytes := []

namespace TokenizerProfile

def puts (p : TokenizerProfile) : List (Put Tokf) := [
  .uuid .tokenizerId p.tokenizerId,
  .uuid .vocabularyId p.vocabularyId,
  .uint .vocabSize p.vocabSize,
  .record .specialTokens p.specialTokens,
  .str .normalization p.normalization,
  .str .chatTemplate p.chatTemplate]

def toCanon (p : TokenizerProfile) : Result Canon := build Tokf.tag p.puts

def fromCanon (c : Canon) : Result TokenizerProfile := do
  let tokenizerId ← needField uuid? c (Tokf.tag .tokenizerId) "TokenizerProfile: tokenizer_id"
  let vocabularyId ← needField uuid? c (Tokf.tag .vocabularyId) "TokenizerProfile: vocabulary_id"
  .ok {
    tokenizerId, vocabularyId
    vocabSize := fieldOr uint? c (Tokf.tag .vocabSize) 0
    specialTokens := fieldOr record? c (Tokf.tag .specialTokens) []
    normalization := fieldOr str? c (Tokf.tag .normalization) []
    chatTemplate := fieldOr str? c (Tokf.tag .chatTemplate) [] }

end TokenizerProfile

/-! ### Tensor -/

structure TensorProfile where
  schemaId : Uuid := Uuid.zero
  rank : UInt64 := 0
  shape : List Int64 := []
  dynamicDims : List UInt8 := []
  dtype : Bytes := []
  layout : Bytes := []
  strides : List Int64 := []
  alignment : Option UInt64 := none
  endianness : Bytes := []
  semanticRole : Bytes := []

namespace TensorProfile

/-- Each entry of `dynamic_dims` is written as a Bool. -/
def puts (p : TensorProfile) : List (Put Tns) := [
  .uuid .schemaId p.schemaId,
  .uint .rank p.rank,
  .seq .shape (p.shape.map .int),
  .seq .dynamicDims (p.dynamicDims.map fun b => .bool (b != 0)),
  .str .dtype p.dtype,
  .str .layout p.layout,
  .seq .strides (p.strides.map .int),
  .uintIf .alignment p.alignment,
  .str .endianness p.endianness,
  .str .semanticRole p.semanticRole]

def toCanon (p : TensorProfile) : Result Canon := build Tns.tag p.puts

def fromCanon (c : Canon) : Result TensorProfile := do
  let schemaId ← needField uuid? c (Tns.tag .schemaId) "TensorProfile: schema_id"
  .ok {
    schemaId
    rank := fieldOr uint? c (Tns.tag .rank) 0
    shape := itemsOf int? c (Tns.tag .shape)
    dynamicDims := (itemsOf bool? c (Tns.tag .dynamicDims)).map fun b => if b then 1 else 0
    dtype := fieldOr str? c (Tns.tag .dtype) []
    layout := fieldOr str? c (Tns.tag .layout) []
    strides := itemsOf int? c (Tns.tag .strides)
    alignment := (c.field (Tns.tag .alignment)).bind uint?
    endianness := fieldOr str? c (Tns.tag .endianness) []
    semanticRole := fieldOr str? c (Tns.tag .semanticRole) [] }

end TensorProfile

/-! ### Kv -/

structure KvProfile where
  kvFormatId : Uuid := Uuid.zero
  modelRevision : Bytes := []
  layerCount : UInt64 := 0
  headCount : UInt64 := 0
  headDim : UInt64 := 0
  dtype : Bytes := []
  layout : Bytes := []
  blockGeometry : Record := []
  positional : Bytes := []
  seqContext : UInt64 := 0
  tokenizerId : Bytes := []
  generation : UInt64 := 0

namespace KvProfile

def puts (p : KvProfile) : List (Put Kvf) := [
  .uuid .kvFormatId p.kvFormatId,
  .str .modelRevision p.modelRevision,
  .uint .layerCount p.layerCount,
  .uint .headCount p.headCount,
  .uint .headDim p.headDim,
  .str .dtype p.dtype,
  .str .layout p.layout,
  .record .blockGeometry p.blockGeometry,
  .str .positional p.positional,
  .uint .seqContext p.seqContext,
  .str .tokenizerId p.tokenizerId,
  .uint .generation p.generation]

def toCanon (p : KvProfile) : Result Canon := build Kvf.tag p.puts

def fromCanon (c : Canon) : Result KvProfile := do
  let simpleStr f := needField str? c (Kvf.tag f) "KvProfile: missing string"
  let kvFormatId ← needField uuid? c (Kvf.tag .kvFormatId) "KvProfile: kv_format_id"
  let modelRevision ← simpleStr .modelRevision
  let dtype ← simpleStr .dtype
  let layout ← simpleStr .layout
  let positional ← simpleStr .positional
  let tokenizerId ← simpleStr .tokenizerId
  .ok {
    kvFormatId, modelRevision, dtype, layout, positional, tokenizerId
    layerCount := fieldOr uint? c (Kvf.tag .layerCount) 0
    headCount := fieldOr uint? c (Kvf.tag .headCount) 0
    headDim := fieldOr uint? c (Kvf.tag .headDim) 0
    blockGeometry := fieldOr record? c (Kvf.tag .blockGeometry) []
    seqContext := fieldOr uint? c (Kvf.tag .seqContext) 0
    generation := fieldOr uint? c (Kvf.tag .generation) 0 }

end KvProfile

/-! ### Kernel -/

structure KernelProfile where
  kernelArtifactId : Uuid := Uuid.zero
  operation : Bytes := []
  architecture : Bytes := []
  computeCapability : Bytes := []
  abi : Bytes := []
  runtime : Bytes := []
  compiler : Bytes := []
  compilerVersion : Bytes := []
  dtype : Bytes := []
  layout : Bytes := []
  shapeSpec : Bytes := []
  launchGeometry : Record := []
  quantization : Bytes := []
  interface : Bytes := []
  generation : UInt64 := 0
  artifactDigest : Bytes := []

namespace KernelProfile

def puts (p : KernelProfile) : List (Put Kernf) := [
  .uuid .kernelArtifactId p.kernelArtifactId,
  .str .operation p.operation,
  .str .architecture p.architecture,
  .str .computeCapability p.computeCapability,
  .str .abi p.abi,
  .str .runtime p.runtime,
  .str .compiler p.compiler,
  .str .compilerVersion p.compilerVersion,
  .str .dtype p.dtype,
  .str .layout p.layout,
  .str .shapeSpec p.shapeSpec,
  .record .launchGeometry p.launchGeometry,
  .str .quantization p.quantization,
  .str .interface p.interface,
  .uint .generation p.generation,
  .str .artifactDigest p.artifactDigest]

def toCanon (p : KernelProfile) : Result Canon := build Kernf.tag p.puts

def fromCanon (c : Canon) : Result KernelProfile := do
  let gs f := needField str? c (Kernf.tag f) "KernelProfile: missing str"
  let kernelArtifactId ← needField uuid? c (Kernf.tag .kernelArtifactId) "KernelProfile: kernel_artifact_id"
  let operation ← gs .operation
  let architecture ← gs .architecture
  let computeCapability ← gs .computeCapability
  let abi ← gs .abi
  let runtime ← gs .runtime
  let compiler ← gs .compiler
  let compilerVersion ← gs .compilerVersion
  let dtype ← gs .dtype
  let layout ← gs .layout
  let shapeSpec ← gs .shapeSpec
  let quantization ← gs .quantization
  let interface ← gs .interface
  let artifactDigest ← gs .artifactDigest
  .ok {
    kernelArtifactId, operation, architecture, computeCapability, abi, runtime, compiler, compilerVersion
    dtype, layout, shapeSpec, quantization, interface, artifactDigest
    launchGeometry := fieldOr record? c (Kernf.tag .launchGeometry) []
    generation := fieldOr uint? c (Kernf.tag .generation) 0 }

end KernelProfile

/-! ### Graph -/

structure GraphProfile where
  graphArtifactId : Uuid := Uuid.zero
  topology : Bytes := []
  dependencies : List Uuid := []
  runtime : Bytes := []
  backend : Bytes := []
  architecture : Bytes := []
  abi : Bytes := []
  dtype : Bytes := []
  layout : Bytes := []
  shapeSpec : Bytes := []
  launchConfig : Record := []
  memoryBinding : Bytes := []
  generation : UInt64 := 0

namespace GraphProfile

def puts (p : GraphProfile) : List (Put Graphf) := [
  .uuid .graphArtifactId p.graphArtifactId,
  .str .topology p.topology,
  .seq .dependencies (p.dependencies.map .uuid),
  .str .runtime p.runtime,
  .str .backend p.backend,
  .str .architecture p.architecture,
  .str .abi p.abi,
  .str .dtype p.dtype,
  .str .layout p.layout,
  .str .shapeSpec p.shapeSpec,
  .record .launchConfig p.launchConfig,
  .str .memoryBinding p.memoryBinding,
  .uint .generation p.generation]

def toCanon (p : GraphProfile) : Result Canon := build Graphf.tag p.puts

def fromCanon (c : Canon) : Result GraphProfile := do
  let gs f := needField str? c (Graphf.tag f) "GraphProfile: missing str"
  let graphArtifactId ← needField uuid? c (Graphf.tag .graphArtifactId) "GraphProfile: graph_artifact_id"
  let topology ← gs .topology
  let runtime ← gs .runtime
  let backend ← gs .backend
  let architecture ← gs .architecture
  let abi ← gs .abi
  let dtype ← gs .dtype
  let layout ← gs .layout
  let shapeSpec ← gs .shapeSpec
  let memoryBinding ← gs .memoryBinding
  .ok {
    graphArtifactId, topology, runtime, backend, architecture, abi, dtype, layout, shapeSpec, memoryBinding
    dependencies := itemsOf uuid? c (Graphf.tag .dependencies)
    launchConfig := fieldOr record? c (Graphf.tag .launchConfig) []
    generation := fieldOr uint? c (Graphf.tag .generation) 0 }

end GraphProfile

/-! ### Adapter -/

structure AdapterProfile where
  adapterId : Uuid := Uuid.zero
  baseModelRevision : Bytes := []
  kind : Bytes := []
  rankConfig : Record := []
  targetModules : List Bytes := []
  dtype : Bytes := []
  composition : Bytes := []
  activation : Record := []
  generation : UInt64 := 0
  artifactDigest : Bytes := []

namespace AdapterProfile

def puts (p : AdapterProfile) : List (Put Adapf) := [
  .uuid .adapterId p.adapterId,
  .str .baseModelRevision p.baseModelRevision,
  .str .kind p.kind,
  .record .rankConfig p.rankConfig,
  .seq .targetModules (p.targetModules.map .str),
  .str .dtype p.dtype,
  .str .composition p.composition,
  .record .activation p.activation,
  .uint .generation p.generation,
  .str .artifactDigest p.artifactDigest]

def toCanon (p : AdapterProfile) : Result Canon := build Adapf.tag p.puts

def fromCanon (c : Canon) : Result AdapterProfile := do
  let gs f := needField str? c (Adapf.tag f) "AdapterProfile: missing str"
  let adapterId ← needField uuid? c (Adapf.tag .adapterId) "AdapterProfile: adapter_id"
  let baseModelRevision ← gs .baseModelRevision
  let kind ← gs .kind
  let dtype ← gs .dtype
  let composition ← gs .composition
  let artifactDigest ← gs .artifactDigest
  .ok {
    adapterId, baseModelRevision, kind, dtype, composition, artifactDigest
    rankConfig := fieldOr record? c (Adapf.tag .rankConfig) []
    targetModules := itemsOf str? c (Adapf.tag .targetModules)
    activation := fieldOr record? c (Adapf.tag .activation) []
    generation := fieldOr uint? c (Adapf.tag .generation) 0 }

end AdapterProfile

/-! ### Backend -/

structure BackendProfile where
  backendId : Uuid := Uuid.zero
  runtime : Bytes := []
  compiler : Bytes := []
  compilerVersion : Bytes := []
  abi : Bytes := []
  codegenTarget : Bytes := []
  capabilities : Record := []
  protocolVersion : Bytes := []
  interfaceVersion : Bytes := []

namespace BackendProfile

def puts (p : BackendProfile) : List (Put Backf) := [
  .uuid .backendId p.backendId,
  .str .runtime p.runtime,
  .str .compiler p.compiler,
  .str .compilerVersion p.compilerVersion,
  .str .abi p.abi,
  .str .codegenTarget p.codegenTarget,
  .record .capabilities p.capabilities,
  .str .protocolVersion p.protocolVersion,
  .str .interfaceVersion p.interfaceVersion]

def toCanon (p : BackendProfile) : Result Canon := build Backf.tag p.puts

def fromCanon (c : Canon) : Result BackendProfile := do
  let gs f := needField str? c (Backf.tag f) "BackendProfile: missing str"
  let backendId ← needField uuid? c (Backf.tag .backendId) "BackendProfile: backend_id"
  let runtime ← gs .runtime
  let compiler ← gs .compiler
  let compilerVersion ← gs .compilerVersion
  let abi ← gs .abi
  let codegenTarget ← gs .codegenTarget
  let protocolVersion ← gs .protocolVersion
  let interfaceVersion ← gs .interfaceVersion
  .ok {
    backendId, runtime, compiler, compilerVersion, abi, codegenTarget, protocolVersion, interfaceVersion
    capabilities := fieldOr record? c (Backf.tag .capabilities) [] }

end BackendProfile

/-! ### Device -/

structure DeviceProfile where
  deviceId : Uuid := Uuid.zero
  vendor : Bytes := []
  architecture : Bytes := []
  computeCapability : Bytes := []
  memoryModel : Bytes := []
  totalMemory : Option UInt64 := none
  supportedDtypes : List Bytes := []
  instructionClasses : List Bytes := []
  executionFeatures : List Bytes := []
  runtimeMin : Bytes := []
  driverMin : Bytes := []

namespace DeviceProfile

def puts (p : DeviceProfile) : List (Put Devf) := [
  .uuid .deviceId p.deviceId,
  .str .vendor p.vendor,
  .str .architecture p.architecture,
  .str .computeCapability p.computeCapability,
  .str .memoryModel p.memoryModel,
  .uintIf .totalMemory p.totalMemory,
  .seq .supportedDtypes (p.supportedDtypes.map .str),
  .seq .instructionClasses (p.instructionClasses.map .str),
  .seq .executionFeatures (p.executionFeatures.map .str),
  .str .runtimeMin p.runtimeMin,
  .str .driverMin p.driverMin]

def toCanon (p : DeviceProfile) : Result Canon := build Devf.tag p.puts

def fromCanon (c : Canon) : Result DeviceProfile := do
  let gs f := needField str? c (Devf.tag f) "DeviceProfile: missing str"
  let deviceId ← needField uuid? c (Devf.tag .deviceId) "DeviceProfile: device_id"
  let vendor ← gs .vendor
  let architecture ← gs .architecture
  let computeCapability ← gs .computeCapability
  let memoryModel ← gs .memoryModel
  let runtimeMin ← gs .runtimeMin
  let driverMin ← gs .driverMin
  .ok {
    deviceId, vendor, architecture, computeCapability, memoryModel, runtimeMin, driverMin
    totalMemory := (c.field (Devf.tag .totalMemory)).bind uint?
    supportedDtypes := itemsOf str? c (Devf.tag .supportedDtypes)
    instructionClasses := itemsOf str? c (Devf.tag .instructionClasses)
    executionFeatures := itemsOf str? c (Devf.tag .executionFeatures) }

end DeviceProfile

/-! ### Protocol -/

structure ProtocolProfile where
  protocolId : Uuid := Uuid.zero
  family : Bytes := []
  major : UInt64 := 0
  minor : UInt64 := 0
  messageSchemaGeneration : Option UInt64 := none
  featureBits : Record := []
  requiredSemantics : List Bytes := []
  optionalSemantics : List Bytes := []

namespace ProtocolProfile

def puts (p : ProtocolProfile) : List (Put Protf) := [
  .uuid .protocolId p.protocolId,
  .str .family p.family,
  .uint .major p.major,
  .uint .minor p.minor,
  .uintIf .messageSchemaGeneration p.messageSchemaGeneration,
  .record .featureBits p.featureBits,
  .seq .requiredSemantics (p.requiredSemantics.map .str),
  .seq .optionalSemantics (p.optionalSemantics.map .str)]

def toCanon (p : ProtocolProfile) : Result Canon := build Protf.tag p.puts

def fromCanon (c : Canon) : Result ProtocolProfile := do
  let protocolId ← needField uuid? c (Protf.tag .protocolId) "ProtocolProfile: protocol_id"
  let family ← needField str? c (Protf.tag .family) "ProtocolProfile: missing str"
  .ok {
    protocolId, family
    major := fieldOr uint? c (Protf.tag .major) 0
    minor := fieldOr uint? c (Protf.tag .minor) 0
    messageSchemaGeneration := (c.field (Protf.tag .messageSchemaGeneration)).bind uint?
    featureBits := fieldOr record? c (Protf.tag .featureBits) []
    requiredSemantics := itemsOf str? c (Protf.tag .requiredSemantics)
    optionalSemantics := itemsOf str? c (Protf.tag .optionalSemantics) }

end ProtocolProfile

/-! ### Policy -/

structure PolicyProfile where
  policyId : Uuid := Uuid.zero
  generation : UInt64 := 0
  strictness : Bytes := []
  permittedAdaptations : List Bytes := []
  fallback : Bytes := []

namespace PolicyProfile

def puts (p : PolicyProfile) : List (Put Polf) := [
  .uuid .policyId p.policyId,
  .uint .generation p.generation,
  .str .strictness p.strictness,
  .seq .permittedAdaptations (p.permittedAdaptations.map .str),
  .str .fallback p.fallback]

def toCanon (p : PolicyProfile) : Result Canon := build Polf.tag p.puts

def fromCanon (c : Canon) : Result PolicyProfile := do
  let gs f := needField str? c (Polf.tag f) "PolicyProfile: missing str"
  let policyId ← needField uuid? c (Polf.tag .policyId) "PolicyProfile: policy_id"
  let strictness ← gs .strictness
  let fallback ← gs .fallback
  .ok {
    policyId, strictness, fallback
    generation := fieldOr uint? c (Polf.tag .generation) 0
    permittedAdaptations := itemsOf str? c (Polf.tag .permittedAdaptations) }

end PolicyProfile

end CompatRegistry
