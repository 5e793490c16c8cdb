import KaspaScript.Codegen.Compile
import KaspaScript.Codegen.Disassemble
import KaspaScript.Native.Chain

namespace KaspaScript

/-- Supported live testnet targets. -/
inductive TestnetTarget where
  | tn10 | tn11 | tn12
  deriving DecidableEq, Repr

/-- Why a script or an artifact was refused by the compiler, whose text the source keeps, or a
text of its own. -/
inductive CompileReason where
  | codegen (error : CodegenError)
  | text (message : String)
  deriving DecidableEq, Repr

/-- Testnet integration error. -/
inductive TestnetError where
  | insufficientFunds (needed available : Nat)
  | compile (reason : CompileReason)
  | artifact (message : String)
  | param (message : String)
  | tx (message : String)
  | script (message : String)
  | json (message : String)
  | unsupported (message : String)
  deriving DecidableEq, Repr

/-- Bound contract parameter value. -/
inductive ParamValue where
  | publicKey (bytes : Bytes)
  | hash (bytes : Bytes)
  | integer (value : Nat)
  | bool (value : Bool)
  | bytes (bytes : Bytes)
  deriving DecidableEq, Repr

/-- A byte list as a message shows it. -/
def debugBytes (bytes : Bytes) : String :=
  "[" ++ ", ".intercalate (bytes.map fun byte => toString byte.toNat) ++ "]"

def ParamValue.debug : ParamValue → String
  | .publicKey data => s!"PublicKey({debugBytes data})"
  | .hash data => s!"Hash({debugBytes data})"
  | .integer n => s!"Integer({n})"
  | .bool b => s!"Bool({b})"
  | .bytes data => s!"Bytes({debugBytes data})"

/-- The bindings of contract parameters: the entries of a map, in key order. -/
abbrev Bindings := List (String × ParamValue)

/-- The crates that turn a redeem script into an address and hash the metadata. -/
structure ScriptLib where
  sha256 : Bytes → Bytes
  artifactJson : CompiledArtifact → Except String Bytes
  bindingsJson : Bindings → Except String Bytes
  payToAddressScript : Address → ScriptPublicKey
  payToScriptHashScript : Bytes → ScriptPublicKey
  extractScriptPubKeyAddress : ScriptPublicKey → AddressPrefix → Except String Address

/-- Instantiated contract script and metadata. -/
structure ContractInstantiation where
  contractName : String
  spendName : String
  redeemScript : Bytes
  scriptPublicKey : ScriptPublicKey
  lockingAddress : Address
  instantiatedParamsHash : String
  lockingScriptHash : String
  spendArgs : List ArtifactParam
  lockTime : Nat
  usesLockTime : Bool
  warnings : List String
  deriving DecidableEq, Repr

/-- Target warnings grounded in the pinned node source. -/
def TestnetTarget.warnings : TestnetTarget → List String
  | .tn10 => []
  | .tn11 | .tn12 => ["rusty-kaspa NetworkId accepts arbitrary testnet suffixes, but consensus Params::from(NetworkId) in consensus/core/src/config/params.rs is suffix-specific only for testnet-10; this builder uses generic NetworkType::Testnet params for fee/mass and records this as target-gated"]

def eqIgnoreAsciiCase (a b : String) : Bool :=
  a.toList.map Char.toLower == b.toList.map Char.toLower

/-- The contract of that name in any case, else the first one. -/
def findContract (artifact : CompiledArtifact) (name : String) :
    Except TestnetError ArtifactContract :=
  match (artifact.contracts.find? fun contract =>
      contract.name == name || eqIgnoreAsciiCase contract.name name).or artifact.contracts.head? with
  | some contract => .ok contract
  | none => .error (.artifact "artifact contains no contract ABI")

def findSpend (contract : ArtifactContract) (name : String) : Except TestnetError ArtifactSpend :=
  match contract.spends.find? fun spend => spend.name == name with
  | some spend => .ok spend
  | none => .error (.artifact s!"contract `{contract.name}` has no spend path `{name}`")

def validateParamType (name : String) (ty : TypeName) (value : ParamValue) :
    Except TestnetError Unit :=
  let valid : Bool :=
    match ty, value with
    | .publicKey, .publicKey data | .hash, .hash data => data.length == 32
    | .blockHeight, .integer _ | .amount, .integer _ | .bool, .bool _ | .bytes, .bytes _ => true
    | _, _ => false
  if valid then .ok ()
  else .error (.param s!"parameter `{name}` expects {ty.debug}, got {value.debug}")

def validateParamBindings (params : List ArtifactParam) (bindings : Bindings) :
    Except TestnetError Unit :=
  params.forM fun param =>
    match bindings.lookup param.name with
    | some value => validateParamType param.name param.ty value
    | none => .error (.param s!"missing parameter `{param.name}`")

section

variable (lib : ScriptLib)

def sha256Hex (bytes : Bytes) : String := bytecodeHex (lib.sha256 bytes)

def valueToIr (value : ParamValue) (ty : TypeName) (asScriptPublicKey : Bool) :
    Except TestnetError Value :=
  match value, ty, asScriptPublicKey with
  | .publicKey data, .publicKey, true =>
      .ok (.bytes (spkBytes (lib.payToAddressScript ⟨.testnet, .pubKey, data⟩)))
  | .publicKey data, .publicKey, false => .ok (.bytes data)
  | .hash data, .hash, _ => .ok (.bytes data)
  | .integer n, .blockHeight, _ | .integer n, .amount, _ => .ok (.integer n)
  | .bool b, .bool, _ => .ok (.bool b)
  | .bytes data, .bytes, _ => .ok (.bytes data)
  | value, ty, _ => .error (.param s!"cannot convert {value.debug} to IR value for {ty.debug}")

def isScriptRead : InstructionKind → Bool
  | .outputScript _ | .inputScript _ => true
  | _ => false

/-- The declared type of a parameter; of a repeated name the last one counts. -/
def paramType (params : List ArtifactParam) (name : String) : Option TypeName :=
  (params.reverse.find? fun param => param.name == name).map ArtifactParam.ty

/-- What stands for an instruction, given the one before it: nothing for a spend parameter, a
contract parameter's value, else itself. -/
def instantiateKind (contract : ArtifactContract) (spend : ArtifactSpend) (spendName : String)
    (bindings : Bindings) (previous : Option InstructionKind) (kind : InstructionKind) :
    Except TestnetError (List InstructionKind) :=
  match kind with
  | .push (.symbol name) =>
      if name ∈ spend.params.map ArtifactParam.name then .ok []
      else
        match paramType contract.params name with
        | none => .error (.param s!"unbound symbol `{name}` in spend `{spendName}`")
        | some ty =>
            match bindings.lookup name with
            | none => .error (.param s!"missing contract parameter `{name}`")
            | some value => do
                let value ← valueToIr lib value ty (previous.any isScriptRead && ty == .publicKey)
                pure [.push value]
  | kind => .ok [kind]

def instantiateFrom (contract : ArtifactContract) (spend : ArtifactSpend) (spendName : String)
    (bindings : Bindings) :
    Option InstructionKind → List Instruction → Except TestnetError (List Instruction)
  | _, [] => .ok []
  | previous, instruction :: rest => do
      let bound ← instantiateKind lib contract spend spendName bindings previous instruction.kind
      let others ← instantiateFrom contract spend spendName bindings (some instruction.kind) rest
      pure (bound.map (Instruction.mk instruction.span) ++ others)

/-- Whether some instruction checks a lock, and the literal of the first that does. -/
def lockTimeRequirement : List Instruction → Bool × Nat
  | [] => (false, 0)
  | instruction :: rest =>
      match instruction.kind with
      | .checkLockHeight value | .checkLockTime value => (true, value)
      | .checkLockHeightFromStack | .checkLockTimeFromStack => (true, 0)
      | _ => lockTimeRequirement rest

def hashParams (bindings : Bindings) : Except TestnetError String :=
  match lib.bindingsJson bindings with
  | .ok bytes => .ok (sha256Hex lib bytes)
  | .error message => .error (.json message)

/-- Instantiates a compiled artifact into a concrete P2SH spend script. -/
def instantiateContract (artifact : CompiledArtifact) (contractName spendName : String)
    (bindings : Bindings) (target : TestnetTarget) : Except TestnetError ContractInstantiation := do
  let contract ← findContract artifact contractName
  if contract.spends.length ≠ 1 then
    throw (.unsupported "legacy single-spend instantiation cannot preserve multiple paths in one locking script; use a reviewed native dispatcher")
  let spend ← findSpend contract spendName
  validateParamBindings contract.params bindings
  let transformed ← instantiateFrom lib contract spend spendName bindings none spend.instructions
  let redeemScript ← (compileSpendScript transformed).mapError fun error =>
    .compile (.codegen error)
  let scriptPublicKey := lib.payToScriptHashScript redeemScript
  let lockingAddress ← (lib.extractScriptPubKeyAddress scriptPublicKey .testnet).mapError .tx
  let instantiatedParamsHash ← hashParams lib bindings
  pure
    { contractName := contract.name
      spendName := spend.name
      redeemScript := redeemScript
      scriptPublicKey := scriptPublicKey
      lockingAddress := lockingAddress
      instantiatedParamsHash := instantiatedParamsHash
      lockingScriptHash := sha256Hex lib scriptPublicKey.script
      spendArgs := spend.params
      lockTime := (lockTimeRequirement transformed).2
      usesLockTime := (lockTimeRequirement transformed).1
      warnings := target.warnings ++ ["script construction uses Rusty Kaspa pay_to_script_hash_script and ScriptBuilder; spend args are supplied through P2SH signature_script"] }

end

open Library (bind_eq_ok pure_eq_ok)

/-- What an instantiation has looked up, bound and compiled. -/
theorem instantiateContract_eq_ok {lib : ScriptLib} {artifact : CompiledArtifact}
    {contractName spendName : String} {bindings : Bindings} {target : TestnetTarget}
    {instantiation : ContractInstantiation}
    (h : instantiateContract lib artifact contractName spendName bindings target =
      .ok instantiation) :
    ∃ contract spend code address paramsHash, findContract artifact contractName = .ok contract ∧
      contract.spends.length = 1 ∧ findSpend contract spendName = .ok spend ∧
      validateParamBindings contract.params bindings = .ok () ∧
      instantiateFrom lib contract spend spendName bindings none spend.instructions = .ok code ∧
      compileSpendScript code = .ok instantiation.redeemScript ∧
      lib.extractScriptPubKeyAddress (lib.payToScriptHashScript instantiation.redeemScript)
        .testnet = .ok address ∧
      hashParams lib bindings = .ok paramsHash ∧
      instantiation.lockingAddress = address ∧
      instantiation.lockingScriptHash =
        sha256Hex lib (lib.payToScriptHashScript instantiation.redeemScript).script ∧
      lockTimeRequirement code = (instantiation.usesLockTime, instantiation.lockTime) := by
  obtain ⟨contract, hcontract, h⟩ := bind_eq_ok.mp h
  by_cases hsingle : contract.spends.length ≠ 1
  · rw [if_pos hsingle] at h
    cases h
  · rw [if_neg hsingle] at h
    obtain ⟨spend, hspend, h⟩ := bind_eq_ok.mp h
    obtain ⟨_, hvalid, h⟩ := bind_eq_ok.mp h
    obtain ⟨code, hcode, h⟩ := bind_eq_ok.mp h
    obtain ⟨script, hscript, h⟩ := bind_eq_ok.mp h
    obtain ⟨address, haddress, h⟩ := bind_eq_ok.mp h
    obtain ⟨paramsHash, hhash, h⟩ := bind_eq_ok.mp h
    obtain rfl := pure_eq_ok.mp h
    exact ⟨contract, spend, code, address, paramsHash, hcontract, not_not.mp hsingle, hspend,
      hvalid, hcode, Library.mapError_eq_ok.mp hscript, Library.mapError_eq_ok.mp haddress, hhash,
      rfl, rfl, rfl⟩

end KaspaScript
