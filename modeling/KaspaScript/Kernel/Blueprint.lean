import KaspaScript.Model.Application
import KaspaScript.Parser.Parser

namespace KaspaScript

/-- Kaspa network scope for a kernel artifact. -/
inductive Network where
  | mainnet | tn10 | tn12 | simnet | devnet | unknown
  deriving DecidableEq, Repr

/-- Programmability features the kernel can reason about. -/
inductive KernelFeature where
  | baseScript | transactionIntrospection | covenantIds | sequencingCommitments | zkVerification
  | feePolicy | walletPreview | indexerLineage
  deriving DecidableEq, Repr

/-- Evidence strength. Higher values can satisfy lower requirements. -/
inductive EvidenceLevel where
  | unknown | researchSignal | docsSignal | branchCode | mergedKip | mergedCode
  | testnetActivation | mainnetPreActivation | mainnetActivation
  deriving DecidableEq, Repr

def EvidenceLevel.provesMainnetActivation : EvidenceLevel → Bool
  | .mainnetActivation => true
  | _ => false

/-- Primary-source evidence attached to a kernel artifact. -/
structure SourceEvidence where
  label : String
  url : String
  auditDate : String
  network : Network
  level : EvidenceLevel
  features : List KernelFeature
  note : String
  deriving DecidableEq, Repr

/-- Source audit date for the bundled Toccata evidence set. -/
def toccataAuditDate : String := "2026-06-17T13:00:00Z"

def SourceEvidence.new (label url : String) (network : Network) (level : EvidenceLevel)
    (features : List KernelFeature) (note : String) : SourceEvidence :=
  ⟨label, url, toccataAuditDate, network, level, features, note⟩

/-- The Toccata sources that every blueprint cites. -/
def currentToccataEvidence : List SourceEvidence :=
  [.new "rusty-kaspa v2.0.1" "https://github.com/kaspanet/rusty-kaspa/releases/tag/v2.0.1"
      .mainnet .mainnetPreActivation
      [.transactionIntrospection, .covenantIds, .sequencingCommitments, .zkVerification, .feePolicy]
      "mainnet Toccata maintenance release published 2026-06-15; usable as a drop-in upgrade version for v2.0.0 nodes and pre-Toccata 1.x nodes, with seq-commit lane-proof RPC and covenant-binding refinements; activation is still scheduled and not independently verified",
    .new "rusty-kaspa v2.0.0" "https://github.com/kaspanet/rusty-kaspa/releases/tag/v2.0.0"
      .mainnet .mainnetPreActivation
      [.transactionIntrospection, .covenantIds, .sequencingCommitments, .zkVerification, .feePolicy]
      "mainnet Toccata release published 2026-06-05; activation is scheduled for DAA score 474,165,565 and is not active at this audit date",
    .new "rusty-kaspa v1.3.0-toc.5" "https://github.com/kaspanet/rusty-kaspa/releases/tag/v1.3.0-toc.5"
      .mainnet .mainnetPreActivation
      [.feePolicy]
      "mainnet sanity-testing pre-release; explicitly not mainnet activation",
    .new "rusty-kaspa PR #1000" "https://github.com/kaspanet/rusty-kaspa/pull/1000"
      .unknown .mergedCode
      [.transactionIntrospection, .covenantIds, .sequencingCommitments, .zkVerification]
      "Toccata implementation merged into master",
    .new "rusty-kaspa tn10-toc3" "https://github.com/kaspanet/rusty-kaspa/releases/tag/tn10-toc3"
      .tn10 .testnetActivation
      [.zkVerification, .sequencingCommitments]
      "TN10 Toccata ZK hardening activation evidence",
    .new "KIP-17 merged file" "https://github.com/kaspanet/kips/blob/master/kip-0017.md"
      .tn10 .testnetActivation
      [.transactionIntrospection]
      "merged KIP status indicates implemented and activated in TN10",
    .new "KIP-20 merged file" "https://github.com/kaspanet/kips/blob/master/kip-0020.md"
      .tn10 .testnetActivation
      [.covenantIds]
      "merged KIP status indicates implemented and activated in TN10",
    .new "KIP-21 merged file" "https://github.com/kaspanet/kips/blob/master/kip-0021.md"
      .tn10 .testnetActivation
      [.sequencingCommitments]
      "merged KIP status indicates implemented and activated in TN10",
    .new "KaspaScript kernel artifacts" "kernel/src/lib.rs"
      .unknown .branchCode
      [.walletPreview, .indexerLineage]
      "local kernel emits wallet preview and covenant lineage schema artifacts"]

/-- Contract state type understood by the kernel. -/
inductive StateType where
  | publicKey | signature | sompi | daaScore | blockHeight | covenantId | hash | bool | u64 | bytes
  deriving DecidableEq, Repr

/-- Contract state field. -/
structure StateField where
  name : String
  ty : StateType
  description : String
  deriving DecidableEq, Repr

/-- Contract transition category. -/
inductive TransitionKind where
  | deposit | spend | timeout | recover | close
  | custom (label : String)
  deriving DecidableEq, Repr

/-- Feature requirement for a transition. -/
structure FeatureRequirement where
  feature : KernelFeature
  minimumEvidence : EvidenceLevel
  reason : String
  deriving DecidableEq, Repr

/-- Supported proof verifier labels. -/
inductive ProofVerifier where
  | none | groth16 | risc0Succinct
  | external (label : String)
  deriving DecidableEq, Repr

/-- Optional proof requirement for a transition. -/
structure ProofRequirement where
  verifier : ProofVerifier
  publicInputs : List String
  payloadHint : String
  deriving DecidableEq, Repr

/-- A Kaspa-native contract transition. -/
structure Transition where
  name : String
  kind : TransitionKind
  consumes : List String
  creates : List String
  signers : List String
  requirements : List FeatureRequirement
  proof : ProofRequirement
  walletWarnings : List String
  semantics : Option TransitionModel
  deriving Repr

namespace Transition

def new (name : String) (kind : TransitionKind) : Transition :=
  ⟨name, kind, [], [], [], [], ⟨.none, [], "no proof payload"⟩, [], none⟩

/-! Each builder step appends to one list of the transition; their names in the source are those of
the lists. -/

def addConsumes (t : Transition) (field : String) : Transition :=
  { t with consumes := t.consumes ++ [field] }

def addCreates (t : Transition) (field : String) : Transition :=
  { t with creates := t.creates ++ [field] }

def signer (t : Transition) (signer : String) : Transition :=
  { t with signers := t.signers ++ [signer] }

def requires (t : Transition) (requirement : FeatureRequirement) : Transition :=
  { t with requirements := t.requirements ++ [requirement] }

def walletWarning (t : Transition) (warning : String) : Transition :=
  { t with walletWarnings := t.walletWarnings ++ [warning] }

def withSemantics (t : Transition) (semantics : TransitionModel) : Transition :=
  { t with semantics := some semantics }

end Transition

/-- Kernel errors. -/
inductive KernelError where
  | emptyContractName
  | noTransitions (contract : String)
  | unknownTransition (name : String)
  | arithmeticOverflow
  deriving DecidableEq, Repr

/-- Contract blueprint packaged by the kernel. -/
structure ContractBlueprint where
  name : String
  network : Network
  state : List StateField
  transitions : List Transition
  evidence : List SourceEvidence
  deriving Repr

inductive PreviewClassification where
  | ordinaryPayment | covenantStateTransition | proofBearingTransition
  deriving DecidableEq, Repr

/-- Wallet-facing transition preview. -/
structure WalletPreview where
  contract : String
  transition : String
  network : Network
  classification : PreviewClassification
  consumes : List String
  creates : List String
  signers : List String
  proof : ProofRequirement
  semantics : Option TransitionModel
  warnings : List String
  deriving Repr

namespace ContractBlueprint

def transition (blueprint : ContractBlueprint) (name : String) : Option Transition :=
  blueprint.transitions.find? fun transition => transition.name == name

/-- The warnings of a preview: those of the transition, then those of every preview. -/
def previewWarnings (blueprint : ContractBlueprint) (transition : Transition) : List String :=
  transition.walletWarnings ++
    ["This is a covenant state transition preview, not an ordinary payment preview."] ++
    (if blueprint.network = .mainnet ∧
        ¬ blueprint.evidence.any (fun evidence => evidence.level.provesMainnetActivation) then
      ["Mainnet activation is not verified for this contract blueprint."]
    else [])

def previewTransition (blueprint : ContractBlueprint) (name : String) :
    Except KernelError WalletPreview :=
  match blueprint.transition name with
  | none => .error (.unknownTransition name)
  | some transition =>
      .ok
        { contract := blueprint.name
          transition := transition.name
          network := blueprint.network
          classification := .covenantStateTransition
          consumes := transition.consumes
          creates := transition.creates
          signers := transition.signers
          proof := transition.proof
          semantics := transition.semantics
          warnings := blueprint.previewWarnings transition }

end ContractBlueprint

/-- Builder for contract blueprints. -/
structure ContractBuilder where
  blueprint : ContractBlueprint

/-- `char::is_whitespace`: the Unicode property White_Space. -/
def isWhitespace (ch : Char) : Bool :=
  let code := ch.toNat
  (0x09 ≤ code && code ≤ 0x0d) || (0x2000 ≤ code && code ≤ 0x200a) ||
    [0x20, 0x85, 0xa0, 0x1680, 0x2028, 0x2029, 0x202f, 0x205f, 0x3000].contains code

namespace ContractBuilder

def network (builder : ContractBuilder) (network : Network) : ContractBuilder :=
  ⟨{ builder.blueprint with network := network }⟩

def stateField (builder : ContractBuilder) (field : StateField) : ContractBuilder :=
  ⟨{ builder.blueprint with state := builder.blueprint.state ++ [field] }⟩

def transition (builder : ContractBuilder) (transition : Transition) : ContractBuilder :=
  ⟨{ builder.blueprint with transitions := builder.blueprint.transitions ++ [transition] }⟩

def evidence (builder : ContractBuilder) (evidence : SourceEvidence) : ContractBuilder :=
  ⟨{ builder.blueprint with evidence := builder.blueprint.evidence ++ [evidence] }⟩

def build (builder : ContractBuilder) : Except KernelError ContractBlueprint :=
  -- a name is empty when trimming leaves nothing of it
  if builder.blueprint.name.toList.all isWhitespace then .error .emptyContractName
  else if builder.blueprint.transitions.isEmpty then
    .error (.noTransitions builder.blueprint.name)
  else .ok builder.blueprint

end ContractBuilder

/-- Starts a Kaspa contract blueprint. -/
def defineKaspaContract (name : String) : ContractBuilder := ⟨⟨name, .unknown, [], [], []⟩⟩

/-- The parts of a kernel package that depend on the transitions through their previews; the
readiness report, the capability profile and the indexer schema are functions of the blueprint. -/
structure KernelPackage where
  blueprint : ContractBlueprint
  walletPreviews : List WalletPreview
  application : Option ApplicationModel
  deriving Repr

def ContractBlueprint.package (blueprint : ContractBlueprint) : Except KernelError KernelPackage := do
  let walletPreviews ← blueprint.transitions.mapM fun transition =>
    blueprint.previewTransition transition.name
  pure ⟨blueprint, walletPreviews, none⟩

/-- `u64::checked_mul` -/
def checkedMul (x y : Nat) : Except KernelError Nat :=
  if x * y ≤ u64Max then .ok (x * y) else .error .arithmeticOverflow

/-- Toccata pre-activation RPC minimum-standard-fee policy. -/
structure ToccataFeePolicy where
  sompiPerUnit : Nat
  deriving DecidableEq, Repr

/-- Fee estimate with explicit assumptions. -/
structure FeeEstimate where
  policy : String
  source : String
  computeGrams : Nat
  transactionBytes : Nat
  minimumStandardFeeSompi : Nat
  assumption : String
  deriving DecidableEq, Repr

namespace ToccataFeePolicy

def default : ToccataFeePolicy := ⟨100⟩

def minimumStandardFee (policy : ToccataFeePolicy) (computeGrams transactionBytes : Nat) :
    Except KernelError Nat := do
  let normalizedBytes ← checkedMul transactionBytes 2
  checkedMul (max computeGrams normalizedBytes) policy.sompiPerUnit

def estimate (policy : ToccataFeePolicy) (computeGrams transactionBytes : Nat)
    (assumption : String) : Except KernelError FeeEstimate := do
  let fee ← policy.minimumStandardFee computeGrams transactionBytes
  pure
    { policy := "toccata-rpc-minimum-standard-fee"
      source := "https://github.com/kaspanet/rusty-kaspa/blob/v2.0.1/docs/toccata-guide.md"
      computeGrams := computeGrams
      transactionBytes := transactionBytes
      minimumStandardFeeSompi := fee
      assumption := assumption }

end ToccataFeePolicy

end KaspaScript
