import KaspaScript.Ir.Instructions

namespace KaspaScript

/-- Source-grounded verification status. -/
inductive VerificationStatus where
  | verified | gated | unsupported
  deriving DecidableEq, Repr

/-- Source-grounding category; the records consulted by code generation use these two. -/
inductive GroundingCategory where
  | backendOpcode | kipReference
  deriving DecidableEq, Repr

/-- A local-source citation for a compiler assumption. -/
structure SourceCitation where
  path : String
  detail : String
  deriving DecidableEq, Repr

/-- Source-grounding record. -/
structure GroundingRecord where
  id : String
  category : GroundingCategory
  status : VerificationStatus
  citation : SourceCitation
  note : String
  deriving DecidableEq, Repr

/-- Warning emitted into compiled artifacts for gated behavior. -/
structure GroundingWarning where
  id : String
  category : GroundingCategory
  citation : SourceCitation
  message : String
  deriving DecidableEq, Repr

/-- Converts a gated record into an artifact warning. -/
def GroundingRecord.warning (record : GroundingRecord) : GroundingWarning :=
  ⟨record.id, record.category, record.citation, record.note⟩

def verifiedOpcode (id detail : String) : GroundingRecord :=
  ⟨id, .backendOpcode, .verified, ⟨"docs/kaspa-source-audit.md", detail⟩,
    "opcode byte mapping is verified against pinned Kaspa txscript sources"⟩

def unsupportedOpcode (id detail : String) : GroundingRecord :=
  ⟨id, .backendOpcode, .unsupported, ⟨"docs/kaspa-source-audit.md", detail⟩,
    "backend emission is unsupported until KaspaScript lowering and tests verify it"⟩

def kipId : Nat → String
  | 10 => "kip-10"
  | 15 => "kip-15"
  | 16 => "kip-16"
  | 17 => "kip-17"
  | 20 => "kip-20"
  | 21 => "kip-21"
  | _ => "kip-unknown"

def verifiedKip (kip : Nat) (path note : String) : GroundingRecord :=
  ⟨kipId kip, .kipReference, .verified,
    ⟨path, "KIP source is present in the pinned Kaspa KIP repository"⟩, note⟩

def gatedKip (kip : Nat) (path note : String) : GroundingRecord :=
  ⟨kipId kip, .kipReference, .gated,
    ⟨path, "KIP source is recognized but not fully enabled for KaspaScript bytecode emission"⟩,
    note⟩

/-- Records for backend opcode assumptions. -/
def backendOpcodeRecords : List GroundingRecord :=
  [verifiedOpcode "push-int" "canonical script-number pushes via OP_0, OP_1..OP_16, OP_DATA_N",
    verifiedOpcode "push-bool" "boolean pushes via OP_0 and OP_1",
    verifiedOpcode "push-bytes" "canonical pushdata OP_DATA_N/OP_PUSHDATA_N",
    verifiedOpcode "drop" "OpDrop (0x75)",
    verifiedOpcode "dup" "OpDup (0x76)",
    verifiedOpcode "equal" "OpEqual (0x87)",
    verifiedOpcode "verify" "OpVerify (0x69)",
    verifiedOpcode "checksig" "OpCheckSig (0xac)",
    verifiedOpcode "checkmultisig" "OpCheckMultiSig (0xae)",
    verifiedOpcode "checklocktimeverify" "OpCheckLockTimeVerify (0xb0)",
    verifiedOpcode "add" "OpAdd (0x93)",
    verifiedOpcode "sub" "OpSub (0x94)",
    unsupportedOpcode "mul"
      "OpMul exists at 0x95; current Toccata sources enable it behind covenants_enabled",
    unsupportedOpcode "div"
      "OpDiv exists at 0x96; current Toccata sources enable it behind covenants_enabled",
    unsupportedOpcode "mod"
      "OpMod exists at 0x97; current Toccata sources enable it behind covenants_enabled",
    verifiedOpcode "lessthan" "OpLessThan (0x9f)",
    verifiedOpcode "lessthanorequal" "OpLessThanOrEqual (0xa1)",
    verifiedOpcode "greaterthan" "OpGreaterThan (0xa0)",
    verifiedOpcode "greaterthanorequal" "OpGreaterThanOrEqual (0xa2)",
    verifiedOpcode "not" "OpNot (0x91)",
    verifiedOpcode "and" "OpBoolAnd (0x9a)",
    verifiedOpcode "or" "OpBoolOr (0x9b)",
    verifiedOpcode "notequal" "OpNumNotEqual (0x9e)",
    verifiedOpcode "sha256" "OpSHA256 (0xa8)",
    unsupportedOpcode "hash160" "no Hash160 opcode is present; 0xa9 is OpCheckMultiSigECDSA",
    verifiedOpcode "blake2b" "OpBlake2b (0xaa)",
    verifiedOpcode "inputvalue" "OpTxInputAmount (0xbe), KIP-10",
    verifiedOpcode "inputscript" "OpTxInputSpk (0xbf), KIP-10",
    verifiedOpcode "outputvalue" "OpTxOutputAmount (0xc2), KIP-10",
    verifiedOpcode "outputscript" "OpTxOutputSpk (0xc3), KIP-10",
    verifiedOpcode "inputcount" "OpTxInputCount (0xb3), KIP-10",
    verifiedOpcode "outputcount" "OpTxOutputCount (0xb4), KIP-10",
    unsupportedOpcode "covenantid"
      "current Toccata sources define covenant ID accessors; KaspaScript lowering is not implemented",
    unsupportedOpcode "covenantid-depth"
      "no upstream covenant depth opcode or KaspaScript depth lowering is implemented",
    unsupportedOpcode "zk-groth16-verify"
      "current Toccata sources define OpZkPrecompile tag 0x20; KaspaScript stack ABI lowering is not implemented",
    unsupportedOpcode "zk-risczero-verify"
      "current Toccata sources define OpZkPrecompile tag 0x21; KaspaScript stack ABI lowering is not implemented",
    unsupportedOpcode "sequencing-commitment"
      "current Toccata sources define OpChainblockSeqCommit; KaspaScript witness/depth lowering is not implemented",
    unsupportedOpcode "check-hash-preimage"
      "no dedicated hash-preimage opcode is present in pinned sources"]

/-- Records for KIP references. -/
def kipRecords : List GroundingRecord :=
  [verifiedKip 10 "docs/kaspa-source-audit.md"
      "KIP-10 is present in kaspanet/kips and marked Active; rusty-kaspa has matching txscript opcodes",
    verifiedKip 15 "docs/kaspa-source-audit.md"
      "KIP-15 is present in kaspanet/kips and marked Active as a block-header commitment",
    gatedKip 16 "docs/kaspa-source-audit.md"
      "KIP-16 and OpZkPrecompile exist upstream; KaspaScript proof lowering remains gated",
    gatedKip 17 "docs/kaspa-source-audit.md"
      "KIP-17 and expanded Toccata opcodes exist upstream; KaspaScript emits only the older KIP-10 subset",
    gatedKip 20 "docs/kaspa-source-audit.md"
      "KIP-20 and covenant ID accessors exist upstream; transaction-output covenant bindings remain gated",
    gatedKip 21 "docs/kaspa-source-audit.md"
      "KIP-21 and OpChainblockSeqCommit exist upstream; witness/depth lowering remains gated"]

def opcodeRecord (id : String) : GroundingRecord :=
  (backendOpcodeRecords.find? (·.id = id)).getD
    ⟨"unknown-opcode", .backendOpcode, .unsupported,
      ⟨"compiler/ir/src/instructions.rs", "instruction has no source-grounding record"⟩,
      "backend refuses instructions without source grounding"⟩

/-- The record a kind of instruction is looked up under. -/
def opcodeId : InstructionKind → String
  | .push (.integer _) => "push-int"
  | .push (.bool _) => "push-bool"
  | .push (.bytes _) | .push (.string _) | .push (.symbol _) | .push (.type _) => "push-bytes"
  | .drop => "drop"
  | .dup => "dup"
  | .inputValue _ => "inputvalue"
  | .inputScript _ => "inputscript"
  | .outputValue _ => "outputvalue"
  | .outputScript _ => "outputscript"
  | .outputCount => "outputcount"
  | .inputCount => "inputcount"
  | .checkSig _ => "checksig"
  | .checkMultiSig _ _ => "checkmultisig"
  | .checkLockHeight _ | .checkLockTime _ | .checkLockHeightFromStack | .checkLockTimeFromStack =>
      "checklocktimeverify"
  | .covenantDepth => "covenantid-depth"
  | .covenantId => "covenantid"
  | .zkVerifyGroth16 => "zk-groth16-verify"
  | .zkVerifyRiscZero => "zk-risczero-verify"
  | .sequencingCommitment => "sequencing-commitment"
  | .sha256 => "sha256"
  | .blake2b => "blake2b"
  | .hash160 => "hash160"
  | .checkHashPreimage => "check-hash-preimage"
  | .verify => "verify"
  | .equal => "equal"
  | .notEqual => "notequal"
  | .lessThan => "lessthan"
  | .lessThanOrEqual => "lessthanorequal"
  | .greaterThan => "greaterthan"
  | .greaterThanOrEqual => "greaterthanorequal"
  | .and => "and"
  | .or => "or"
  | .not => "not"
  | .add => "add"
  | .sub => "sub"
  | .mul => "mul"
  | .div => "div"
  | .mod => "mod"

/-- The source-grounding record for an instruction. -/
def recordForInstruction (kind : InstructionKind) : GroundingRecord := opcodeRecord (opcodeId kind)

/-- The source-grounding record for a KIP. -/
def recordForKip (kip : Nat) : Option GroundingRecord :=
  kipRecords.find? (·.id = "kip-" ++ toString kip)

/-- The instructions that code generation refuses on every target. -/
def isUnsupported : InstructionKind → Bool
  | .covenantDepth | .covenantId | .zkVerifyGroth16 | .zkVerifyRiscZero | .sequencingCommitment
  | .hash160 | .checkHashPreimage | .mul | .div | .mod => true
  | _ => false

theorem recordForInstruction_status (kind : InstructionKind) :
    (recordForInstruction kind).status =
      if isUnsupported kind then .unsupported else .verified := by
  cases kind with
  | push value => cases value <;> rfl
  | _ => rfl

end KaspaScript
