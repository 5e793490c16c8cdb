import KaspaScript.Kernel.Blueprint
import KaspaScript.Library.Ranked

namespace KaspaScript

open Library (maxByKey)

namespace Network

def display : Network → String
  | .mainnet => "mainnet"
  | .tn10 => "tn10"
  | .tn12 => "tn12"
  | .simnet => "simnet"
  | .devnet => "devnet"
  | .unknown => "unknown"

end Network

namespace KernelFeature

def display : KernelFeature → String
  | .baseScript => "base-script"
  | .transactionIntrospection => "transaction-introspection"
  | .covenantIds => "covenant-ids"
  | .sequencingCommitments => "sequencing-commitments"
  | .zkVerification => "zk-verification"
  | .feePolicy => "fee-policy"
  | .walletPreview => "wallet-preview"
  | .indexerLineage => "indexer-lineage"

def description : KernelFeature → String
  | .baseScript => "deterministic Kaspa txscript bytecode emission"
  | .transactionIntrospection => "spend logic can inspect selected transaction inputs or outputs"
  | .covenantIds => "state lineage can be keyed by covenant identifiers"
  | .sequencingCommitments =>
      "contract policy can reason about accepted BlockDAG ordering commitments"
  | .zkVerification => "transition policy can require zero-knowledge proof verification"
  | .feePolicy => "package can estimate fees with the pinned Toccata policy"
  | .walletPreview => "wallets receive sign-time transition preview metadata"
  | .indexerLineage => "indexers receive tables for contract lineage and audit trails"

end KernelFeature

namespace EvidenceLevel

def rank : EvidenceLevel → Nat
  | .unknown => 0
  | .researchSignal => 10
  | .docsSignal => 20
  | .branchCode => 30
  | .mergedKip => 40
  | .mergedCode => 50
  | .testnetActivation => 60
  | .mainnetPreActivation => 70
  | .mainnetActivation => 100

def display : EvidenceLevel → String
  | .unknown => "unknown"
  | .researchSignal => "research-signal"
  | .docsSignal => "docs-signal"
  | .branchCode => "branch-code"
  | .mergedKip => "merged-kip"
  | .mergedCode => "merged-code"
  | .testnetActivation => "testnet-activation"
  | .mainnetPreActivation => "mainnet-pre-activation"
  | .mainnetActivation => "mainnet-activation"

/-- Levels compare by rank. -/
instance : LE EvidenceLevel := ⟨fun a b => a.rank ≤ b.rank⟩

instance (a b : EvidenceLevel) : Decidable (a ≤ b) := inferInstanceAs (Decidable (a.rank ≤ b.rank))

theorem le_def {a b : EvidenceLevel} : a ≤ b ↔ a.rank ≤ b.rank := Iff.rfl

theorem rank_injective {a b : EvidenceLevel} (h : a.rank = b.rank) : a = b := by
  cases a <;> cases b <;> first | rfl | cases h

end EvidenceLevel

def SourceEvidence.covers (evidence : SourceEvidence) (feature : KernelFeature)
    (network : Network) : Bool :=
  evidence.features.contains feature &&
    (evidence.network = .unknown || evidence.network = network)

/-- Overall readiness level for package and feature checks. -/
inductive ReadinessLevel where
  | verified | preview | blocked
  deriving DecidableEq, Repr

/-- Per-feature readiness line. -/
structure FeatureReadiness where
  transition : String
  feature : KernelFeature
  required : EvidenceLevel
  best : Option EvidenceLevel
  level : ReadinessLevel
  satisfied : Bool
  sourceLabel : Option String
  deriving DecidableEq, Repr

/-- Readiness report. -/
structure ReadinessReport where
  contract : String
  network : Network
  level : ReadinessLevel
  ready : Bool
  blockers : List String
  features : List FeatureReadiness
  deriving DecidableEq, Repr

/-- Feature capability with current package evidence. -/
structure CapabilityFeature where
  feature : KernelFeature
  level : ReadinessLevel
  bestEvidence : Option EvidenceLevel
  description : String
  deriving DecidableEq, Repr

/-- The part of the capability summary that the evidence decides, with the policy limits and wallet
requirements beside it; the rest lists the transitions and constant texts. -/
structure CapabilityProfile where
  contract : String
  network : Network
  readinessLevel : ReadinessLevel
  ready : Bool
  features : List CapabilityFeature
  walletRequirements : List String
  policyLimits : List String
  deriving DecidableEq, Repr

namespace ContractBlueprint

/-- The last of the strongest evidence that covers the feature. -/
def bestEvidence (blueprint : ContractBlueprint) (feature : KernelFeature) :
    Option SourceEvidence :=
  maxByKey (fun evidence => evidence.level.rank)
    (blueprint.evidence.filter fun evidence => evidence.covers feature blueprint.network)

def activationProved (blueprint : ContractBlueprint) : Bool :=
  blueprint.evidence.any fun evidence => evidence.level.provesMainnetActivation

/-- The best evidence reaches the requirement's minimum. -/
def isSatisfied (blueprint : ContractBlueprint) (requirement : FeatureRequirement) : Bool :=
  (blueprint.bestEvidence requirement.feature).any fun evidence =>
    requirement.minimumEvidence ≤ evidence.level

def requirementBlockers (blueprint : ContractBlueprint) (transition : Transition)
    (requirement : FeatureRequirement) : List String :=
  if blueprint.isSatisfied requirement then []
  else
    let best := (blueprint.bestEvidence requirement.feature).map SourceEvidence.level
    ["transition `" ++ transition.name ++ "` requires " ++ requirement.feature.display ++ " at " ++
      requirement.minimumEvidence.display ++ ", best evidence is " ++
      (best.getD .unknown).display]

def featureReadiness (blueprint : ContractBlueprint) (transition : Transition)
    (requirement : FeatureRequirement) : FeatureReadiness :=
  let best := blueprint.bestEvidence requirement.feature
  let satisfied := blueprint.isSatisfied requirement
  { transition := transition.name
    feature := requirement.feature
    required := requirement.minimumEvidence
    best := best.map SourceEvidence.level
    level := if satisfied then .verified else if best.isSome then .preview else .blocked
    satisfied := satisfied
    sourceLabel := best.map SourceEvidence.label }

/-- The requirements of all transitions, in order. -/
def requirements (blueprint : ContractBlueprint) : List (Transition × FeatureRequirement) :=
  blueprint.transitions.flatMap fun transition =>
    transition.requirements.map fun requirement => (transition, requirement)

def blockers (blueprint : ContractBlueprint) : List String :=
  (if blueprint.network = .mainnet ∧ ¬ blueprint.activationProved then
    ["mainnet activation is not verified; pre-activation releases are not enough"] else []) ++
  blueprint.requirements.flatMap fun (transition, requirement) =>
    blueprint.requirementBlockers transition requirement

def readinessReport (blueprint : ContractBlueprint) : ReadinessReport :=
  { contract := blueprint.name
    network := blueprint.network
    level :=
      if ¬ blueprint.blockers.isEmpty then .blocked
      else if blueprint.network = .unknown then .preview
      else .verified
    ready := blueprint.blockers.isEmpty
    blockers := blueprint.blockers
    features := blueprint.requirements.map fun (transition, requirement) =>
      blueprint.featureReadiness transition requirement }

def pushUniqueFeature (features : List KernelFeature) (feature : KernelFeature) :
    List KernelFeature :=
  if feature ∈ features then features else features ++ [feature]

/-- The weakest of the readiness lines of one feature. -/
def capabilityLevel (related : List FeatureReadiness) : ReadinessLevel :=
  if related.any fun report => report.level = .blocked then .blocked
  else if related.any fun report => report.level = .preview then .preview
  else .verified

def capabilityFeatures (blueprint : ContractBlueprint) (readiness : ReadinessReport) :
    List CapabilityFeature :=
  let features := blueprint.requirements.foldl (fun features (_, requirement) =>
    pushUniqueFeature features requirement.feature) []
  features.map fun feature =>
    { feature := feature
      level := capabilityLevel (readiness.features.filter fun report => report.feature = feature)
      bestEvidence := (blueprint.bestEvidence feature).map SourceEvidence.level
      description := feature.description }

def walletRequirements (blueprint : ContractBlueprint) : List String :=
  ["render contract spends as state transitions, not ordinary payments",
    "show consumed state, created outputs, required signers, and warnings before signing"] ++
  (if blueprint.transitions.any fun transition => ¬ transition.signers.isEmpty then
    ["collect spend-path signatures named by the transition profile"] else []) ++
  (if blueprint.transitions.any fun transition => transition.proof.verifier ≠ .none then
    ["attach proof payloads and public inputs before broadcast"] else [])

def policyLimits (blueprint : ContractBlueprint) (readiness : ReadinessReport) : List String :=
  ["package metadata does not replace node, wallet, standardness, or consensus validation",
    "contract model is UTXO/state-transition oriented, not an account-runtime VM"] ++
  (if blueprint.network = .unknown then
    ["preview target is for analysis and integration design only"] else []) ++
  (if readiness.level = .blocked then
    ["blocked readiness level prevents production treatment"] else [])

def capabilityProfile (blueprint : ContractBlueprint) : CapabilityProfile :=
  let readiness := blueprint.readinessReport
  { contract := blueprint.name
    network := blueprint.network
    readinessLevel := readiness.level
    ready := readiness.ready
    features := blueprint.capabilityFeatures readiness
    walletRequirements := blueprint.walletRequirements
    policyLimits := blueprint.policyLimits readiness }

/-! When a blueprint is ready. -/

variable {blueprint : ContractBlueprint}

theorem isSatisfied_iff {requirement : FeatureRequirement} :
    blueprint.isSatisfied requirement = true ↔
      ∃ evidence ∈ blueprint.evidence,
        evidence.covers requirement.feature blueprint.network = true ∧
        requirement.minimumEvidence ≤ evidence.level := by
  simp only [isSatisfied, Option.any_eq_true, decide_eq_true_eq, EvidenceLevel.le_def]
  have hreaches := @Library.maxByKey_reaches SourceEvidence (fun evidence => evidence.level.rank)
    (blueprint.evidence.filter fun evidence =>
      evidence.covers requirement.feature blueprint.network) requirement.minimumEvidence.rank
  simp only [List.mem_filter] at hreaches
  simpa only [bestEvidence, and_assoc, Option.mem_def] using hreaches

theorem forall_requirements {P : FeatureRequirement → Prop} :
    (∀ entry ∈ blueprint.requirements, P entry.2) ↔
      ∀ transition ∈ blueprint.transitions, ∀ requirement ∈ transition.requirements,
        P requirement := by
  simp only [requirements, List.forall_mem_flatMap, List.forall_mem_map]

theorem activationProved_iff : blueprint.activationProved = true ↔
    ∃ evidence ∈ blueprint.evidence, evidence.level = .mainnetActivation := by
  have hproves : ∀ level : EvidenceLevel,
      level.provesMainnetActivation = true ↔ level = .mainnetActivation := by
    intro level
    cases level <;> simp [EvidenceLevel.provesMainnetActivation]
  simp only [activationProved, List.any_eq_true, hproves]

/-- A blueprint is ready when every requirement is satisfied and, on mainnet, some evidence
proves an activation. -/
theorem ready_iff : blueprint.readinessReport.ready = true ↔
    (blueprint.network = .mainnet → blueprint.activationProved = true) ∧
      ∀ entry ∈ blueprint.requirements, blueprint.isSatisfied entry.2 = true := by
  have hblockers : ∀ entry : Transition × FeatureRequirement,
      blueprint.requirementBlockers entry.1 entry.2 = [] ↔
        blueprint.isSatisfied entry.2 = true := by
    intro entry
    unfold requirementBlockers
    split_ifs with hsatisfied <;> simp [hsatisfied]
  simp only [readinessReport, blockers, List.isEmpty_iff, List.append_eq_nil_iff,
    List.flatMap_eq_nil_iff, hblockers]
  apply and_congr_left'
  split_ifs with hmainnet
  · simpa using hmainnet
  · simp only [true_iff]
    intro hnetwork
    by_contra hproved
    exact hmainnet ⟨hnetwork, hproved⟩

end ContractBlueprint

end KaspaScript
