import KaspaScript.Codegen.Compile
import KaspaScript.Codegen.Disassemble
import KaspaScript.Kernel.Blueprint

namespace KaspaScript

def networkFromTarget (target : String) : Network :=
  match target with
  | "verified-tn12" => .tn12
  | "tn10-toccata" => .tn10
  | "future-mainnet" => .mainnet
  | "toccata-preview" => .unknown
  | _ => .unknown

def stateTypeFromTypeName : TypeName → StateType
  | .publicKey => .publicKey
  | .signature => .signature
  | .hash => .hash
  | .blockHeight => .blockHeight
  | .amount => .sompi
  | .bool => .bool
  | .bytes => .bytes
  | .covenantId => .covenantId
  | .zkProof | .utxo | .output | .input => .bytes

/-- `Path::file_name`: the last component, unless the path ends in a parent directory. -/
def fileName (path : List Char) : Option (List Char) :=
  let components := (path.splitOn '/').filter fun component =>
    component ≠ [] && component ≠ ['.']
  components.getLast?.filter fun component => component ≠ ['.', '.']

/-- `Path::file_stem`: the file name before its last dot, a leading dot apart. -/
def fileStem (path : List Char) : Option (List Char) :=
  (fileName path).map fun name =>
    let before := ((name.reverse.dropWhile (· ≠ '.')).drop 1).reverse
    if before = [] then name else before

/-- `toUppercase` is Unicode's mapping of one character. -/
def contractNameFromPath (toUppercase : Char → List Char) (path : String) : String :=
  match fileStem path.toList with
  | none => "Contract"
  | some stem =>
      String.ofList (((stem.splitOn '_').filter (· ≠ [])).flatMap fun
        | [] => []
        | first :: rest => toUppercase first ++ rest)

def localArtifactEvidence (sourcePath : String) (network : Network) (artifact : CompiledArtifact) :
    SourceEvidence :=
  .new "KaspaScript compiled artifact" sourcePath network .branchCode
    ([.baseScript, .walletPreview, .indexerLineage] ++
      (if 10 ∈ artifact.kipRequirements then [.transactionIntrospection] else []))
    "local compiler artifact verified before kernel package emission"

/-- What the previews of a transition say that it takes and makes. -/
def describeSemantics (contract : ArtifactContract) (semantics : Option TransitionModel)
    (transition : Transition) : Transition :=
  match semantics with
  | none =>
      (transition.addConsumes (contract.name ++ " compiled locking state")).addCreates
        "application model did not resolve this spend path"
  | some semantics =>
      let shape := semantics.transactionShape
      let consuming :=
        if shape.referencedInputs.isEmpty then
          transition.addConsumes (contract.name ++ " compiled locking state")
        else shape.referencedInputs.foldl (fun transition input =>
          transition.addConsumes ("input(" ++ toString input ++ ") referenced by source")) transition
      let creating :=
        if semantics.outputBindings.isEmpty then
          consuming.addCreates "no output field is constrained by this spend path"
        else semantics.outputBindings.foldl (fun transition binding =>
          transition.addCreates ("output(" ++ toString binding.outputIndex ++ ")." ++
            binding.field.display ++ " " ++ binding.relation.display ++ " " ++
            binding.expected.display)) consuming
      let warned :=
        if shape.additionalOutputsPermitted then
          creating.walletWarning "Source does not constrain the exact output count; review every additional output and recipient."
        else creating
      warned.withSemantics semantics

/-- The transition that the blueprint gets for one spend. -/
def spendTransition (artifact : CompiledArtifact) (contract : ArtifactContract)
    (spend : ArtifactSpend) : Transition :=
  let semantics := artifact.application.transition contract.name spend.name
  let base := Transition.new spend.name .spend
    |>.requires ⟨.baseScript, .branchCode,
      "compiled artifact emitted verified Kaspa txscript bytecode"⟩
    |>.requires ⟨.walletPreview, .branchCode, "kernel package emits wallet preview metadata"⟩
    |>.requires ⟨.indexerLineage, .branchCode, "kernel package emits indexer schema metadata"⟩
    |>.walletWarning ("Review `" ++ spend.name ++
      "` as a Kaspa contract spend path before signing.")
  let described := describeSemantics contract semantics base
  let introspecting :=
    if 10 ∈ artifact.kipRequirements then
      described.requires ⟨.transactionIntrospection, .branchCode,
        "artifact declares KIP-10 transaction introspection requirements"⟩
    else described
  spend.params.foldl (fun transition param =>
    if param.ty = .signature then transition.signer param.name else transition) introspecting

/-- The state fields and the transitions of one contract. -/
def addContract (artifact : CompiledArtifact) (builder : ContractBuilder)
    (contract : ArtifactContract) : ContractBuilder :=
  let fields := contract.params.foldl (fun builder param =>
    builder.stateField
      { name :=
          if artifact.contracts.length = 1 then param.name
          else contract.name ++ "." ++ param.name
        ty := stateTypeFromTypeName param.ty
        description := "compiled parameter from contract " ++ contract.name }) builder
  contract.spends.foldl (fun builder spend =>
    builder.transition (spendTransition artifact contract spend)) fields

/-- The options of a package build that its result depends on. -/
structure KernelPackageBuildOptions where
  target : Target
  computeGrams : Nat
  txBytes : Option Nat
  deriving DecidableEq, Repr

def kernelBlueprintFromArtifact (toUppercase : Char → List Char) (sourcePath : String)
    (artifact : CompiledArtifact) : Except KernelError ContractBlueprint :=
  let network := networkFromTarget artifact.target
  let contractName :=
    match artifact.contracts with
    | [contract] => contract.name
    | _ => contractNameFromPath toUppercase sourcePath
  let named := ((defineKaspaContract contractName).network network).evidence
    (localArtifactEvidence sourcePath network artifact)
  let evidenced := currentToccataEvidence.foldl ContractBuilder.evidence named
  (artifact.contracts.foldl (addContract artifact) evidenced).build

/-- Compiler artifact summary embedded in kernel packages. -/
structure CompiledArtifactSummary where
  backend : String
  target : String
  compilerVersion : String
  bytecodeBytes : Nat
  finalityDepth : Option Nat
  kipRequirements : List Nat
  contracts : List String
  spends : List String
  deriving DecidableEq, Repr

def artifactSummary (artifact : CompiledArtifact) : CompiledArtifactSummary :=
  { backend := artifact.backend
    target := artifact.target
    compilerVersion := artifact.compilerVersion
    bytecodeBytes := artifact.bytecode.length
    finalityDepth := artifact.finalityDepth
    kipRequirements := artifact.kipRequirements
    contracts := artifact.contracts.map ArtifactContract.name
    spends := artifact.contracts.flatMap fun contract =>
      contract.spends.map fun spend => contract.name ++ "." ++ spend.name }

/-- Combined compiler plus kernel package. -/
structure CompiledKernelPackage where
  packageTarget : String
  artifact : CompiledArtifactSummary
  bytecodeHex : String
  bytecodeAsm : String
  kernel : KernelPackage
  feeEstimate : FeeEstimate
  deriving Repr

/-- Inputs required to combine a compiler artifact with a kernel package. -/
structure CompiledPackageInput where
  artifact : CompiledArtifactSummary
  bytecodeHex : String
  bytecodeAsm : String
  application : ApplicationModel
  blueprint : ContractBlueprint
  computeGrams : Nat
  transactionBytes : Nat
  feeAssumption : String

/-- Combines a compiler artifact summary and kernel blueprint into one package. -/
def packageCompiledContract (input : CompiledPackageInput) :
    Except KernelError CompiledKernelPackage := do
  let kernel ← input.blueprint.package
  let feeEstimate ← ToccataFeePolicy.default.estimate input.computeGrams input.transactionBytes
    input.feeAssumption
  pure
    { packageTarget := input.artifact.target
      artifact := input.artifact
      bytecodeHex := input.bytecodeHex
      bytecodeAsm := input.bytecodeAsm
      kernel := { kernel with application := some input.application }
      feeEstimate := feeEstimate }

/-- SDK error for compiling and packaging a kernel package. -/
inductive PackageError where
  | codegen (error : CodegenError)
  | kernel (error : KernelError)
  deriving DecidableEq, Repr

/-- Verifies an existing artifact and wraps it in a complete kernel package. -/
def buildKernelPackageFromArtifact (toUppercase : Char → List Char) (file : String)
    (artifact : CompiledArtifact) (options : KernelPackageBuildOptions) :
    Except PackageError CompiledKernelPackage := do
  (verifyArtifact artifact).mapError .codegen
  let transactionBytes := options.txBytes.getD (min artifact.bytecode.length u64Max)
  let feeAssumption :=
    if options.txBytes.isSome ∨ options.computeGrams ≠ 0 then
      "caller-provided fee estimate inputs"
    else
      "lower-bound estimate using compiled bytecode length as transaction_bytes and compute_grams=0"
  let asm ← (bytecodeAsm artifact.bytecode).mapError .codegen
  let blueprint ← (kernelBlueprintFromArtifact toUppercase file artifact).mapError .kernel
  (packageCompiledContract
    { artifact := artifactSummary artifact
      bytecodeHex := bytecodeHex artifact.bytecode
      bytecodeAsm := asm
      application := artifact.application
      blueprint := blueprint
      computeGrams := options.computeGrams
      transactionBytes := transactionBytes
      feeAssumption := feeAssumption }).mapError .kernel

/-- Compiles source, verifies bytecode, and returns a complete kernel package. -/
def buildKernelPackage (sha256 : Bytes → Bytes) (toUppercase : Char → List Char)
    (source file : String) (options : KernelPackageBuildOptions) :
    Except PackageError CompiledKernelPackage := do
  let artifact ← (compileFileForTarget sha256 source file options.target).mapError .codegen
  buildKernelPackageFromArtifact toUppercase file artifact options

end KaspaScript
