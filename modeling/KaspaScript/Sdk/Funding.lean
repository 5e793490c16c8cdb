import KaspaScript.Library.Rounds
import KaspaScript.Sdk.Instantiate
import Mathlib.Data.List.Sort

namespace KaspaScript

/-- Addition of two `u64` that stops at the largest one. -/
def saturatingAdd (a b : Nat) : Nat := min (a + b) u64Max

namespace Testnet

open Library (bind_eq_ok of_rounds pure_eq_ok rounds)

structure TransactionInput where
  previousOutpoint : TransactionOutpoint
  signatureScript : Bytes
  sequence : Nat
  sigOpCount : Nat
  deriving DecidableEq, Repr

structure TransactionOutput where
  value : Nat
  scriptPublicKey : ScriptPublicKey
  deriving DecidableEq, Repr

/-- A transaction of the testnet crates; the subnetwork, gas and payload are constants of the
builders and are left out, and the id is computed from the rest. -/
structure Transaction where
  version : Nat
  inputs : List TransactionInput
  outputs : List TransactionOutput
  lockTime : Nat
  mass : Nat
  deriving DecidableEq, Repr

structure UtxoEntry where
  amount : Nat
  scriptPublicKey : ScriptPublicKey
  blockDaaScore : Nat
  isCoinbase : Bool
  deriving DecidableEq, Repr

structure ClientUtxoEntry where
  address : Option Address
  outpoint : TransactionOutpoint
  amount : Nat
  scriptPublicKey : ScriptPublicKey
  blockDaaScore : Nat
  isCoinbase : Bool
  deriving DecidableEq, Repr

/-- What a node reports for an address. -/
structure RpcUtxo where
  outpoint : TransactionOutpoint
  utxoEntry : UtxoEntry
  deriving DecidableEq, Repr

structure FundingUtxo where
  outpoint : TransactionOutpoint
  entry : UtxoEntry
  clientRef : ClientUtxoEntry
  deriving DecidableEq, Repr

structure TestWallet where
  secretBytes : Bytes
  address : Address
  publicKey : Bytes
  deriving DecidableEq, Repr

/-- The wallet crate's mass calculator. -/
structure MassCalculator where
  computeMass : Transaction → Nat
  storageMass : List ClientUtxoEntry → List TransactionOutput → Option Nat
  combineMass : Nat → Nat → Nat
  minimumFee : Nat → Nat
  isDust : Nat → Bool

/-- The crates that weigh, sign and check transactions; a calculator is chosen by network suffix. -/
structure BuilderLib extends ScriptLib where
  massCalculator : Nat → MassCalculator
  maximumStandardMass : Nat
  txVersion : Nat
  maxInputSequence : Nat
  transactionId : Transaction → Bytes
  signInput : Transaction → List UtxoEntry → Nat → Bytes → Bytes
  addData : Bytes → Bytes → Except String Bytes
  sigOpCount : Bytes → ScriptPublicKey → Nat
  executeInput : Transaction → List UtxoEntry → Nat → Except String Unit

/-- Preview of a constructed transaction; the RPC form of a transaction carries the same data. -/
structure TransactionPreview where
  txid : String
  mass : Nat
  fee : Nat
  scriptHex : String
  rpcTransaction : Transaction
  deriving DecidableEq, Repr

structure BuiltTransaction where
  tx : Transaction
  inputs : List TransactionInput
  preview : TransactionPreview
  deriving DecidableEq, Repr

structure LockedContractOutput where
  outpoint : TransactionOutpoint
  amount : Nat
  scriptPublicKey : ScriptPublicKey
  blockDaaScore : Nat
  deriving DecidableEq, Repr

def FundingUtxo.fromRpc (utxo : RpcUtxo) (address : Address) : FundingUtxo where
  outpoint := utxo.outpoint
  entry := utxo.utxoEntry
  clientRef := ⟨some address, utxo.outpoint, utxo.utxoEntry.amount, utxo.utxoEntry.scriptPublicKey,
    utxo.utxoEntry.blockDaaScore, utxo.utxoEntry.isCoinbase⟩

/-- Takes from the front until the total reaches the minimum. -/
def takeFunding (minimum : Nat) : List FundingUtxo → Nat → Except TestnetError (List FundingUtxo)
  | [], total => .error (.insufficientFunds minimum total)
  | utxo :: rest, total =>
      let total := saturatingAdd total utxo.entry.amount
      if minimum ≤ total then .ok [utxo]
      else do
        let others ← takeFunding minimum rest total
        pure (utxo :: others)

/-- The largest amounts first, in a stable order, until they reach the minimum. -/
def selectFunding (funding : List FundingUtxo) (minimum : Nat) :
    Except TestnetError (List FundingUtxo) :=
  takeFunding minimum (funding.insertionSort fun a b => b.entry.amount ≤ a.entry.amount) 0

def calculateMass (calculator : MassCalculator) (tx : Transaction) (refs : List ClientUtxoEntry) :
    Except TestnetError Nat :=
  match calculator.storageMass refs tx.outputs with
  | some storageMass => .ok (calculator.combineMass (calculator.computeMass tx) storageMass)
  | none => .error (.tx "storage mass calculation failed")

def dummyP2pkSignatureScript : Bytes := 65 :: List.replicate 65 0

def dummySpendArgPayloads (params : List ArtifactParam) : Except TestnetError (List Bytes) :=
  params.mapM fun param =>
    if param.ty = .signature then .ok (List.replicate 65 0)
    else .error (.unsupported
      s!"live spend arg `{param.name}` of type {param.ty.debug} is not yet supported")

def parseSingleSignaturePayload (signatureScript : Bytes) : Except TestnetError Bytes :=
  if signatureScript.length ≠ 66 ∨ signatureScript.head? ≠ some 65 then
    .error (.tx "Rusty Kaspa sign_input returned an unexpected signature script shape")
  else .ok signatureScript.tail

section

variable (lib : BuilderLib)

def massCalculator : TestnetTarget → MassCalculator
  | .tn10 => lib.massCalculator 10
  | .tn11 | .tn12 => lib.massCalculator 11

def payToWallet (wallet : TestWallet) : ScriptPublicKey := lib.payToAddressScript wallet.address

/-- The change output: none for no change and none for dust. -/
def changeOutputs (calculator : MassCalculator) (wallet : TestWallet) (change : Nat) :
    List TransactionOutput :=
  if change > 0 ∧ calculator.isDust change = false then [⟨change, payToWallet lib wallet⟩] else []

/-- What a round of a fee loop has built. -/
structure Attempt where
  tx : Transaction
  mass : Nat
  fee : Nat
  deriving DecidableEq, Repr

/-- One round of a fee loop, given the fee and the change of the round before: the transaction
with that change, its mass and fee, and the change this fee leaves. -/
def feeRound (calculator : MassCalculator) (wallet : TestWallet) (refs : List ClientUtxoEntry)
    (label : String) (candidate : List TransactionOutput → Except TestnetError Transaction)
    (nextChange : Nat → Except TestnetError Nat) (state : Nat × Nat) :
    Except TestnetError (Attempt × Nat × Nat) := do
  let tx ← candidate (changeOutputs lib calculator wallet state.2)
  let mass ← calculateMass calculator tx refs
  if mass > lib.maximumStandardMass then
    throw (.tx s!"{label} transaction mass {mass} exceeds standard limit {lib.maximumStandardMass}")
  let change ← nextChange (calculator.minimumFee mass)
  pure (⟨tx, mass, calculator.minimumFee mass⟩, calculator.minimumFee mass, change)

def signP2pkInputs (tx : Transaction) (entries : List UtxoEntry) (wallet : TestWallet)
    (startIndex : Nat) : Transaction :=
  { tx with inputs := tx.inputs.mapIdx fun index input =>
      if startIndex ≤ index then
        { input with signatureScript := lib.signInput tx entries index wallet.secretBytes }
      else input }

def p2shSigOpCount (signatureScript : Bytes) (scriptPublicKey : ScriptPublicKey) :
    Except TestnetError Nat :=
  let count := lib.sigOpCount signatureScript scriptPublicKey
  if count ≤ 255 then .ok count
  else .error (.tx "out of range integral type conversion attempted")

def buildContractSignatureScript (redeemScript : Bytes) (payloads : List Bytes) :
    Except TestnetError Bytes := do
  let script ← payloads.foldlM (fun script payload => (lib.addData script payload).mapError .tx) []
  (lib.addData script redeemScript).mapError .tx

/-- Puts a signature script into input 0, with its count of signature operations. -/
def setContractScript (tx : Transaction) (script : Bytes) (count : Nat) : Transaction :=
  { tx with inputs := tx.inputs.modifyHead fun input =>
      { input with signatureScript := script, sigOpCount := count } }

def signContractInput (tx : Transaction) (entries : List UtxoEntry) (wallet : TestWallet)
    (instantiation : ContractInstantiation) : Except TestnetError Transaction := do
  let signatureScript := lib.signInput tx entries 0 wallet.secretBytes
  let signaturePayload ← parseSingleSignaturePayload signatureScript
  let payloads ← instantiation.spendArgs.mapM fun param =>
    if param.ty = .signature then .ok signaturePayload
    else .error (.unsupported
      s!"live spend arg `{param.name}` of type {param.ty.debug} is not yet supported by the P2SH builder")
  let script ← buildContractSignatureScript lib instantiation.redeemScript payloads
  -- the caller's entries start with the locked output, so the source's index never panics
  let scriptPublicKey := entries.head?.elim ⟨0, []⟩ UtxoEntry.scriptPublicKey
  let count ← p2shSigOpCount lib script scriptPublicKey
  pure (setContractScript tx script count)

def validateScripts (tx : Transaction) (entries : List UtxoEntry) : Except TestnetError Unit :=
  (List.range tx.inputs.length).forM fun index =>
    if index < entries.length then (lib.executeInput tx entries index).mapError .script
    else .error (.script s!"missing UTXO entry for input {index}")

/-- An input that spends a wallet output, before it is signed. -/
def fundingInput (utxo : FundingUtxo) : TransactionInput :=
  ⟨utxo.outpoint, dummyP2pkSignatureScript, lib.maxInputSequence, 1⟩

/-- The total of amounts as the source adds them in a `u64`. -/
def sumU64 (amounts : List Nat) : Nat := amounts.sum % 2 ^ 64

/-- The change a lock's fee leaves. -/
def lockChange (destinationTotal totalInput fee : Nat) : Except TestnetError Nat :=
  let needed := saturatingAdd destinationTotal fee
  if needed ≤ totalInput then .ok (totalInput - needed)
  else .error (.insufficientFunds needed totalInput)

def fundingCandidate (selected : List FundingUtxo) (destinationOutputs : List TransactionOutput)
    (lockTime : Nat) (change : List TransactionOutput) : Except TestnetError Transaction :=
  .ok ⟨lib.txVersion, selected.map (fundingInput lib), destinationOutputs ++ change, lockTime, 0⟩

def buildSignedFundingTransaction (wallet : TestWallet) (target : TestnetTarget)
    (selected : List FundingUtxo) (destinationOutputs : List TransactionOutput) (lockTime : Nat)
    (scriptLabel : String) : Except TestnetError BuiltTransaction := do
  let entries := selected.map FundingUtxo.entry
  let refs := selected.map FundingUtxo.clientRef
  let totalInput := sumU64 (selected.map fun utxo => utxo.entry.amount)
  let destinationTotal := sumU64 (destinationOutputs.map TransactionOutput.value)
  let final ← Library.rounds (feeRound lib (massCalculator lib target) wallet refs scriptLabel
    (fundingCandidate lib selected destinationOutputs lockTime)
    (lockChange destinationTotal totalInput)) 10 (0, 0) none
  match final with
  | none => .error (.tx "failed to build transaction")
  | some attempt => do
      let signed := signP2pkInputs lib attempt.tx entries wallet 0
      let tx := { signed with mass := attempt.mass }
      validateScripts lib tx entries
      pure
        { inputs := attempt.tx.inputs
          preview :=
            { txid := bytecodeHex (lib.transactionId tx)
              mass := attempt.mass
              fee := attempt.fee
              scriptHex := tx.outputs.head?.elim "" fun output =>
                bytecodeHex output.scriptPublicKey.script
              rpcTransaction := tx }
          tx := tx }

def buildLockTransaction (wallet : TestWallet) (target : TestnetTarget) (amount : Nat)
    (instantiation : ContractInstantiation) (funding : List FundingUtxo) :
    Except TestnetError BuiltTransaction := do
  if amount = 0 then throw (.tx "lock amount must be greater than zero")
  let selected ← selectFunding funding (saturatingAdd amount 10000)
  let destination := [⟨amount, instantiation.scriptPublicKey⟩]
  buildSignedFundingTransaction lib wallet target selected destination 0 "lock"

def clientRefForLocked (locked : LockedContractOutput) : ClientUtxoEntry :=
  ⟨none, locked.outpoint, locked.amount, locked.scriptPublicKey, locked.blockDaaScore, false⟩

/-- The inputs of a spend before they are signed: the locked output, then the fee funding. -/
def spendInputs (instantiation : ContractInstantiation) (locked : LockedContractOutput)
    (feeFunding : List FundingUtxo) : List TransactionInput :=
  let contractSequence := if instantiation.usesLockTime then 0 else lib.maxInputSequence
  ⟨locked.outpoint, [], contractSequence, 0⟩ :: feeFunding.map (fundingInput lib)

/-- The outputs those inputs spend, as the signer and the script engine see them. -/
def spendEntries (locked : LockedContractOutput) (feeFunding : List FundingUtxo) :
    List UtxoEntry :=
  ⟨locked.amount, locked.scriptPublicKey, locked.blockDaaScore, false⟩ ::
    feeFunding.map FundingUtxo.entry

/-- The change a spend's fee leaves of its fee funding. -/
def spendChange (fundingTotal fee : Nat) : Except TestnetError Nat :=
  if fee ≤ fundingTotal then .ok (fundingTotal - fee)
  else .error (.insufficientFunds fee fundingTotal)

def spendCandidate (wallet : TestWallet) (instantiation : ContractInstantiation)
    (locked : LockedContractOutput) (feeFunding : List FundingUtxo)
    (change : List TransactionOutput) : Except TestnetError Transaction := do
  let outputs := ⟨locked.amount, payToWallet lib wallet⟩ :: change
  let payloads ← dummySpendArgPayloads instantiation.spendArgs
  let script ← buildContractSignatureScript lib instantiation.redeemScript payloads
  let count ← p2shSigOpCount lib script locked.scriptPublicKey
  pure (setContractScript ⟨lib.txVersion, spendInputs lib instantiation locked feeFunding, outputs,
    instantiation.lockTime, 0⟩ script count)

/-- Signs the wallet's inputs and the contract's, and runs every script. -/
def signSpend (wallet : TestWallet) (instantiation : ContractInstantiation) (tx : Transaction)
    (entries : List UtxoEntry) : Except TestnetError Transaction := do
  let tx ← signContractInput lib (signP2pkInputs lib tx entries wallet 1) entries wallet
    instantiation
  validateScripts lib tx entries
  pure tx

def buildSpendTransaction (wallet : TestWallet) (target : TestnetTarget)
    (instantiation : ContractInstantiation) (locked : LockedContractOutput)
    (funding : List FundingUtxo) : Except TestnetError BuiltTransaction := do
  let feeFunding ← selectFunding funding 10000
  let refs := clientRefForLocked locked :: feeFunding.map FundingUtxo.clientRef
  let fundingTotal := sumU64 (feeFunding.map fun utxo => utxo.entry.amount)
  let final ← Library.rounds (feeRound lib (massCalculator lib target) wallet refs "spend"
    (spendCandidate lib wallet instantiation locked feeFunding) (spendChange fundingTotal))
    10 (0, 0) none
  match final with
  | none => .error (.tx "failed to build spend transaction")
  | some attempt => do
      -- every round sets the mass of its transaction once it is weighed
      let tx ← signSpend lib wallet instantiation { attempt.tx with mass := attempt.mass }
        (spendEntries locked feeFunding)
      pure
        { inputs := tx.inputs
          preview :=
            { txid := bytecodeHex (lib.transactionId tx)
              mass := attempt.mass
              fee := attempt.fee
              scriptHex := bytecodeHex instantiation.redeemScript
              rpcTransaction := tx }
          tx := tx }

end

section

variable {lib : BuilderLib} {calculator : MassCalculator} {wallet : TestWallet}
  {refs : List ClientUtxoEntry} {label : String}
  {candidate : List TransactionOutput → Except TestnetError Transaction}
  {nextChange : Nat → Except TestnetError Nat}

/-- One round: the transaction it weighs and the change its fee leaves. -/
theorem feeRound_eq_ok {fee change : Nat} {attempt : Attempt} {next : Nat × Nat} :
    feeRound lib calculator wallet refs label candidate nextChange (fee, change) =
        .ok (attempt, next) ↔
      candidate (changeOutputs lib calculator wallet change) = .ok attempt.tx ∧
        calculateMass calculator attempt.tx refs = .ok attempt.mass ∧
        attempt.mass ≤ lib.maximumStandardMass ∧
        attempt.fee = calculator.minimumFee attempt.mass ∧ next.1 = attempt.fee ∧
        nextChange attempt.fee = .ok next.2 := by
  unfold feeRound
  constructor
  · intro h
    obtain ⟨tx, htx, h⟩ := bind_eq_ok.mp h
    obtain ⟨mass, hmass, h⟩ := bind_eq_ok.mp h
    by_cases hheavy : mass > lib.maximumStandardMass
    · rw [if_pos hheavy] at h
      cases h
    · rw [if_neg hheavy] at h
      obtain ⟨change', hchange, h⟩ := bind_eq_ok.mp h
      obtain ⟨rfl, rfl⟩ := Prod.mk.inj (pure_eq_ok.mp h)
      exact ⟨htx, hmass, Nat.le_of_not_lt hheavy, rfl, rfl, hchange⟩
  · intro ⟨htx, hmass, hlight, hfee, hnext, hchange⟩
    rw [htx, Library.ok_bind, hmass, Library.ok_bind, if_neg (Nat.not_lt.mpr hlight)]
    rw [hfee] at hchange hnext
    obtain ⟨tx, mass, fee⟩ := attempt
    obtain ⟨nextFee, change'⟩ := next
    simp only at hchange hnext hfee
    subst hfee hnext
    simp only [hchange, Library.ok_bind, pure_eq_ok]

end

/-- What signing leaves of an input. -/
def TransactionInput.unsigned (input : TransactionInput) : TransactionOutpoint × Nat :=
  (input.previousOutpoint, input.sequence)

theorem outpoints_of_unsigned {inputs inputs' : List TransactionInput}
    (h : inputs.map TransactionInput.unsigned = inputs'.map TransactionInput.unsigned) :
    inputs.map TransactionInput.previousOutpoint =
      inputs'.map TransactionInput.previousOutpoint := by
  have hfst := congrArg (List.map Prod.fst) h
  rwa [List.map_map, List.map_map] at hfst

theorem setContractScript_unsigned (tx : Transaction) (script : Bytes) (count : Nat) :
    (setContractScript tx script count).inputs.map TransactionInput.unsigned =
      tx.inputs.map TransactionInput.unsigned := by
  unfold setContractScript
  cases tx.inputs <;> rfl

theorem signP2pkInputs_unsigned (lib : BuilderLib) (tx : Transaction) (entries : List UtxoEntry)
    (wallet : TestWallet) (startIndex : Nat) :
    (signP2pkInputs lib tx entries wallet startIndex).inputs.map TransactionInput.unsigned =
      tx.inputs.map TransactionInput.unsigned := by
  unfold signP2pkInputs
  apply List.ext_getElem
  · simp
  · intro index _ _
    simp only [List.getElem_map, List.getElem_mapIdx]
    split_ifs <;> rfl

/-- Selection takes some of the funding and leaves the rest. -/
theorem selectFunding_perm {funding selected : List FundingUtxo} {minimum : Nat}
    (h : selectFunding funding minimum = .ok selected) :
    ∃ rest, funding.Perm (selected ++ rest) := by
  have hprefix : ∀ (sorted selected : List FundingUtxo) (total : Nat),
      takeFunding minimum sorted total = .ok selected → selected <+: sorted := by
    intro sorted
    induction sorted with
    | nil =>
      intro selected total h
      cases h
    | cons utxo sorted ih =>
      intro selected total h
      unfold takeFunding at h
      simp only at h
      split_ifs at h with henough
      · obtain rfl := Except.ok.inj h
        exact ⟨sorted, rfl⟩
      · obtain ⟨others, hothers, h⟩ := bind_eq_ok.mp h
        obtain rfl := pure_eq_ok.mp h
        exact List.cons_prefix_cons.mpr ⟨rfl, ih others _ hothers⟩
  obtain ⟨rest, hrest⟩ := hprefix _ _ _ h
  refine ⟨rest, ?_⟩
  rw [hrest]
  exact (List.perm_insertionSort _ funding).symm

/-- The amounts of what a transaction spends. -/
def entriesValue (entries : List UtxoEntry) : Nat := (entries.map UtxoEntry.amount).sum

theorem entriesValue_selected {funding selected : List FundingUtxo} {minimum : Nat}
    (h : selectFunding funding minimum = .ok selected) :
    entriesValue (selected.map FundingUtxo.entry) ≤ entriesValue (funding.map FundingUtxo.entry) := by
  obtain ⟨rest, hperm⟩ := selectFunding_perm h
  have hsum := ((hperm.map FundingUtxo.entry).map UtxoEntry.amount).sum_nat
  rw [List.map_append, List.map_append, List.sum_append] at hsum
  unfold entriesValue
  omega

section

variable {lib : BuilderLib} {wallet : TestWallet} {target : TestnetTarget} {built : BuiltTransaction}

/-- The loop behind a wallet-funded transaction, and what of its last round is returned. -/
theorem buildSignedFundingTransaction_eq_ok {selected : List FundingUtxo}
    {destinationOutputs : List TransactionOutput} {lockTime : Nat} {scriptLabel : String}
    (h : buildSignedFundingTransaction lib wallet target selected destinationOutputs lockTime
      scriptLabel = .ok built) :
    ∃ attempt, rounds (feeRound lib (massCalculator lib target) wallet
        (selected.map FundingUtxo.clientRef) scriptLabel
        (fundingCandidate lib selected destinationOutputs lockTime)
        (lockChange (sumU64 (destinationOutputs.map TransactionOutput.value))
          (sumU64 (selected.map fun utxo => utxo.entry.amount)))) 10 (0, 0) none =
        .ok (some attempt) ∧
      built.inputs = attempt.tx.inputs ∧ built.preview.mass = attempt.mass ∧
      built.preview.fee = attempt.fee ∧ built.preview.rpcTransaction = built.tx ∧
      built.tx = { signP2pkInputs lib attempt.tx (selected.map FundingUtxo.entry) wallet 0 with
        mass := attempt.mass } := by
  obtain ⟨final, hrounds, h⟩ := bind_eq_ok.mp h
  cases final with
  | none => cases h
  | some attempt =>
    obtain ⟨_, _, h⟩ := bind_eq_ok.mp h
    obtain rfl := pure_eq_ok.mp h
    exact ⟨attempt, hrounds, rfl, rfl, rfl, rfl, rfl⟩

theorem buildSpendTransaction_eq_ok {instantiation : ContractInstantiation}
    {locked : LockedContractOutput} {funding : List FundingUtxo}
    (h : buildSpendTransaction lib wallet target instantiation locked funding = .ok built) :
    ∃ feeFunding attempt, selectFunding funding 10000 = .ok feeFunding ∧
      rounds (feeRound lib (massCalculator lib target) wallet
        (clientRefForLocked locked :: feeFunding.map FundingUtxo.clientRef) "spend"
        (spendCandidate lib wallet instantiation locked feeFunding)
        (spendChange (sumU64 (feeFunding.map fun utxo => utxo.entry.amount)))) 10 (0, 0) none =
        .ok (some attempt) ∧
      built.inputs = built.tx.inputs ∧ built.preview.mass = attempt.mass ∧
      built.preview.fee = attempt.fee ∧ built.preview.rpcTransaction = built.tx ∧
      signSpend lib wallet instantiation { attempt.tx with mass := attempt.mass }
        (spendEntries locked feeFunding) = .ok built.tx := by
  obtain ⟨feeFunding, hselect, h⟩ := bind_eq_ok.mp h
  obtain ⟨final, hrounds, h⟩ := bind_eq_ok.mp h
  cases final with
  | none => cases h
  | some attempt =>
    obtain ⟨tx, hsign, h⟩ := bind_eq_ok.mp h
    obtain rfl := pure_eq_ok.mp h
    exact ⟨feeFunding, attempt, hselect, hrounds, rfl, rfl, rfl, rfl, hsign⟩

/-- Signing a spend writes signature scripts and nothing else. -/
theorem signSpend_eq_ok {instantiation : ContractInstantiation} {tx signed : Transaction}
    {entries : List UtxoEntry}
    (h : signSpend lib wallet instantiation tx entries = .ok signed) :
    signed.outputs = tx.outputs ∧ signed.lockTime = tx.lockTime ∧
      signed.inputs.map TransactionInput.unsigned = tx.inputs.map TransactionInput.unsigned := by
  obtain ⟨tx', hcontract, h⟩ := bind_eq_ok.mp h
  obtain ⟨_, _, h⟩ := bind_eq_ok.mp h
  obtain rfl := pure_eq_ok.mp h
  obtain ⟨_, _, hcontract⟩ := bind_eq_ok.mp hcontract
  obtain ⟨_, _, hcontract⟩ := bind_eq_ok.mp hcontract
  obtain ⟨script, _, hcontract⟩ := bind_eq_ok.mp hcontract
  obtain ⟨count, _, hcontract⟩ := bind_eq_ok.mp hcontract
  obtain rfl := pure_eq_ok.mp hcontract
  refine ⟨rfl, rfl, ?_⟩
  rw [setContractScript_unsigned, signP2pkInputs_unsigned]

theorem spendCandidate_eq_ok {instantiation : ContractInstantiation}
    {locked : LockedContractOutput} {feeFunding : List FundingUtxo}
    {change : List TransactionOutput} {tx : Transaction}
    (h : spendCandidate lib wallet instantiation locked feeFunding change = .ok tx) :
    tx.outputs = ⟨locked.amount, payToWallet lib wallet⟩ :: change ∧
      tx.lockTime = instantiation.lockTime ∧
      tx.inputs.map TransactionInput.unsigned =
        (spendInputs lib instantiation locked feeFunding).map TransactionInput.unsigned := by
  obtain ⟨_, _, h⟩ := bind_eq_ok.mp h
  obtain ⟨_, _, h⟩ := bind_eq_ok.mp h
  obtain ⟨_, _, h⟩ := bind_eq_ok.mp h
  rw [← pure_eq_ok.mp h]
  exact ⟨rfl, rfl, setContractScript_unsigned _ _ _⟩

/-- The inputs and the lock time of a spend are those of every round of its fee loop. -/
theorem unsigned_of_buildSpendTransaction {instantiation : ContractInstantiation}
    {locked : LockedContractOutput} {funding : List FundingUtxo}
    (h : buildSpendTransaction lib wallet target instantiation locked funding = .ok built) :
    ∃ feeFunding, selectFunding funding 10000 = .ok feeFunding ∧
      built.tx.lockTime = instantiation.lockTime ∧
      built.tx.inputs.map TransactionInput.unsigned =
        (spendInputs lib instantiation locked feeFunding).map TransactionInput.unsigned := by
  obtain ⟨feeFunding, attempt, hselect, hrounds, _, _, _, _, hsign⟩ := buildSpendTransaction_eq_ok h
  have hattempt : attempt.tx.lockTime = instantiation.lockTime ∧
      attempt.tx.inputs.map TransactionInput.unsigned =
        (spendInputs lib instantiation locked feeFunding).map TransactionInput.unsigned := by
    apply of_rounds _ hrounds (by simp)
    intro state attempt next hround
    exact (spendCandidate_eq_ok (feeRound_eq_ok.mp hround).1).2
  obtain ⟨_, hlock, hinputs⟩ := signSpend_eq_ok hsign
  exact ⟨feeFunding, hselect, hlock.trans hattempt.1, hinputs.trans hattempt.2⟩

end

end Testnet

end KaspaScript
