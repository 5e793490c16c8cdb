import KaspaScript.Sdk.Fees
import KaspaScript.Sdk.Previews

namespace KaspaScript.Testnet

open Library (bind_eq_ok pure_eq_ok of_rounds)

/-- Contract deployment plan derived from source and compiler output. -/
structure ContractDeploymentPlan where
  contractName : String
  file : String
  sourceHash : String
  artifactHash : String
  scriptHash : String
  scriptHex : String
  artifact : CompiledArtifact

/-- Live or dry-run contract flow output. -/
structure ContractRunResult where
  plan : ContractDeploymentPlan
  instantiation : ContractInstantiation
  lock : TransactionPreview
  spend : TransactionPreview

/-- Binds a name, in key order and in place of an earlier binding. -/
def insertBinding (bindings : Bindings) (name : String) (value : ParamValue) : Bindings :=
  (bindings.filter fun binding => binding.1 ≠ name).orderedInsert
    (fun a b => ¬ b.1 < a.1) (name, value)

def defaultSpendName (artifact : CompiledArtifact) (contractName : String) :
    Except TestnetError String := do
  let contract ← findContract artifact contractName
  if contract.name = "AtomicSwap" then pure "refund_path"
  else
    match contract.spends.head? with
    | some spend => pure spend.name
    | none => .error (.artifact "contract has no spend paths")

def defaultParamValue (wallet : TestWallet) (param : ArtifactParam) :
    Except TestnetError ParamValue :=
  match param.ty with
  | .publicKey => .ok (.publicKey wallet.publicKey)
  | .hash => .ok (.hash (List.replicate 32 0))
  | .blockHeight | .amount => .ok (.integer 0)
  | .bool => .ok (.bool true)
  | .bytes => .ok (.bytes [])
  | other => .error (.unsupported
      s!"default binding for contract parameter `{param.name}` of type {other.debug} is not supported")

def defaultContractParams (artifact : CompiledArtifact) (contractName : String)
    (wallet : TestWallet) : Except TestnetError Bindings := do
  let contract ← findContract artifact contractName
  contract.params.foldlM (fun bindings param => do
    let value ← defaultParamValue wallet param
    pure (insertBinding bindings param.name value)) []

section

variable (lib : BuilderLib)

/-- Compiles a KaspaScript contract and creates a deterministic deployment plan. -/
def ContractDeploymentPlan.fromSource (contractName file source : String) :
    Except TestnetError ContractDeploymentPlan := do
  let artifact ← (compileFileForTarget lib.sha256 source file .verifiedTn12).mapError fun error =>
    .compile (.codegen error)
  (verifyArtifact artifact).mapError fun error => .compile (.codegen error)
  let artifactBytes ← (lib.artifactJson artifact).mapError .json
  pure
    { contractName := contractName
      file := file
      sourceHash := bytecodeHex artifact.sourceHash
      artifactHash := sha256Hex lib.toScriptLib artifactBytes
      scriptHash := sha256Hex lib.toScriptLib artifact.bytecode
      scriptHex := bytecodeHex artifact.bytecode
      artifact := artifact }

/-- An output of a transaction as wallet funding. -/
def FundingUtxo.fromTransactionOutput (tx : Transaction) (index : Nat) (address : Address) :
    Except TestnetError FundingUtxo :=
  match tx.outputs[index]? with
  | none => .error (.tx s!"missing transaction output {index}")
  | some output =>
      if index ≤ u32Max then
        .ok
          { outpoint := ⟨lib.transactionId tx, index⟩
            entry := ⟨output.value, output.scriptPublicKey, 0, false⟩
            clientRef := ⟨some address, ⟨lib.transactionId tx, index⟩, output.value,
              output.scriptPublicKey, 0, false⟩ }
      else .error (.tx "out of range integral type conversion attempted")

/-- The change of a lock, where it has any. -/
def lockChangeFunding (tx : Transaction) (address : Address) :
    Except TestnetError (Option FundingUtxo) :=
  if tx.outputs.length ≤ 1 then .ok none
  else some <$> FundingUtxo.fromTransactionOutput lib tx 1 address

/-- The wallet outputs a node reports, coinbase ones left out. -/
def rpcFunding (wallet : TestWallet) (rpcUtxos : List RpcUtxo) : List FundingUtxo :=
  (rpcUtxos.filter fun utxo => !utxo.utxoEntry.isCoinbase).map fun utxo =>
    FundingUtxo.fromRpc utxo wallet.address

/-- Builds a full dry-run contract run from typed RPC UTXOs. -/
def buildContractRun (contractName file source : String) (wallet : TestWallet)
    (target : TestnetTarget) (amountSompi : Nat) (rpcUtxos : List RpcUtxo) :
    Except TestnetError ContractRunResult := do
  let plan ← ContractDeploymentPlan.fromSource lib contractName file source
  let spendName ← defaultSpendName plan.artifact contractName
  let contractParams ← defaultContractParams plan.artifact contractName wallet
  let instantiation ← instantiateContract lib.toScriptLib plan.artifact contractName spendName
    contractParams target
  let funding := rpcFunding wallet rpcUtxos
  let lock ← buildLockTransaction lib wallet target amountSompi instantiation funding
  let lockOutput : LockedContractOutput :=
    ⟨⟨lib.transactionId lock.tx, 0⟩, amountSompi, instantiation.scriptPublicKey, 0⟩
  let spentOutpoints := lock.inputs.map TransactionInput.previousOutpoint
  let feeFunding := funding.filter fun utxo => utxo.outpoint ∉ spentOutpoints
  let changeUtxo ← lockChangeFunding lib lock.tx wallet.address
  let spend ← buildSpendTransaction lib wallet target instantiation lockOutput
    (feeFunding ++ changeUtxo.toList)
  pure ⟨plan, instantiation, lock.preview, spend.preview⟩

end

/-- The outpoints a transaction spends. -/
def Transaction.spent (tx : Transaction) : List TransactionOutpoint :=
  tx.inputs.map TransactionInput.previousOutpoint

/-- An outpoint names an output of a transaction, and the entry carries that output. -/
def SpendsOutput (lib : BuilderLib) (tx : Transaction) (index : Nat)
    (outpoint : TransactionOutpoint) (entry : UtxoEntry) : Prop :=
  outpoint = ⟨lib.transactionId tx, index⟩ ∧
    ∃ output, tx.outputs[index]? = some output ∧ entry.amount = output.value ∧
      entry.scriptPublicKey = output.scriptPublicKey

/-- Fee funding of a spend: a reported output that the lock left, or the lock's change. -/
def FundsSpend (lib : BuilderLib) (rpcUtxos : List RpcUtxo) (lock : Transaction)
    (outpoint : TransactionOutpoint) (entry : UtxoEntry) : Prop :=
  (∃ utxo ∈ rpcUtxos, utxo.outpoint = outpoint ∧ utxo.utxoEntry = entry ∧ outpoint ∉ lock.spent) ∨
    SpendsOutput lib lock 1 outpoint entry

/-- Two transactions that spend nothing twice, the second with the entries it was signed for. -/
structure SafeChain (lib : BuilderLib) (rpcUtxos : List RpcUtxo) (lock spend : Transaction)
    (entries : List UtxoEntry) : Prop where
  lock_nodup : lock.spent.Nodup
  lock_reported : ∀ outpoint ∈ lock.spent, ∃ utxo ∈ rpcUtxos, utxo.outpoint = outpoint ∧
    utxo.utxoEntry.isCoinbase = false
  spend_nodup : spend.spent.Nodup
  disjoint : ∀ outpoint ∈ spend.spent, outpoint ∉ lock.spent
  funded : ∃ locked rest lockedEntry others, spend.spent = locked :: rest ∧
    entries = lockedEntry :: others ∧ SpendsOutput lib lock 0 locked lockedEntry ∧
    List.Forall₂ (FundsSpend lib rpcUtxos lock) rest others

section

variable {lib : BuilderLib} {wallet : TestWallet} {target : TestnetTarget}

/-- A lock spends some of the funding and pays the contract first. -/
theorem buildLockTransaction_eq_ok {amount : Nat} {instantiation : ContractInstantiation}
    {funding : List FundingUtxo} {built : BuiltTransaction}
    (h : buildLockTransaction lib wallet target amount instantiation funding = .ok built) :
    ∃ selected rest, funding.Perm (selected ++ rest) ∧
      built.tx.spent = selected.map FundingUtxo.outpoint ∧
      built.inputs.map TransactionInput.previousOutpoint = built.tx.spent ∧
      built.preview.rpcTransaction = built.tx ∧
      built.tx.outputs[0]? = some ⟨amount, instantiation.scriptPublicKey⟩ := by
  unfold buildLockTransaction at h
  by_cases hzero : amount = 0
  · rw [if_pos hzero] at h
    cases h
  · rw [if_neg hzero] at h
    obtain ⟨selected, hselect, h⟩ := bind_eq_ok.mp h
    obtain ⟨rest, hperm⟩ := selectFunding_perm hselect
    obtain ⟨attempt, hrounds, hinputs, _, _, hrpc, htx⟩ := buildSignedFundingTransaction_eq_ok h
    have hattempt : attempt.tx.inputs = selected.map (fundingInput lib) ∧
        attempt.tx.outputs[0]? = some ⟨amount, instantiation.scriptPublicKey⟩ := by
      apply of_rounds _ hrounds (by simp)
      intro state attempt next hround
      obtain ⟨hcandidate, _⟩ := feeRound_eq_ok.mp hround
      rw [← Except.ok.inj hcandidate]
      exact ⟨rfl, rfl⟩
    have hspent : built.tx.spent = attempt.tx.inputs.map TransactionInput.previousOutpoint := by
      rw [htx]
      exact outpoints_of_unsigned (signP2pkInputs_unsigned lib attempt.tx _ wallet 0)
    refine ⟨selected, rest, hperm, ?_, ?_, hrpc, ?_⟩
    · rw [hspent, hattempt.1, List.map_map]
      rfl
    · rw [hinputs, hspent]
    · rw [htx]
      exact hattempt.2

/-- A spend takes the locked output first, then some of its funding, and is signed for their
entries. -/
theorem spent_of_buildSpendTransaction {instantiation : ContractInstantiation}
    {locked : LockedContractOutput} {funding : List FundingUtxo} {built : BuiltTransaction}
    (h : buildSpendTransaction lib wallet target instantiation locked funding = .ok built) :
    ∃ feeFunding rest unsigned, funding.Perm (feeFunding ++ rest) ∧
      built.tx.spent = locked.outpoint :: feeFunding.map FundingUtxo.outpoint ∧
      built.preview.rpcTransaction = built.tx ∧
      signSpend lib wallet instantiation unsigned (spendEntries locked feeFunding) =
        .ok built.tx := by
  obtain ⟨feeFunding, attempt, hselect, _, _, _, _, hrpc, hsign⟩ := buildSpendTransaction_eq_ok h
  obtain ⟨selected, hselected, _, hinputs⟩ := unsigned_of_buildSpendTransaction h
  obtain rfl := Except.ok.inj (hselected.symm.trans hselect)
  obtain ⟨rest, hperm⟩ := selectFunding_perm hselect
  refine ⟨selected, rest, _, hperm, ?_, hrpc, hsign⟩
  rw [Transaction.spent, outpoints_of_unsigned hinputs]
  simp [spendInputs, fundingInput, Function.comp_def]

theorem lockChangeFunding_eq_ok {tx : Transaction} {address : Address}
    {change : Option FundingUtxo} (h : lockChangeFunding lib tx address = .ok change) :
    ∀ utxo ∈ change, SpendsOutput lib tx 1 utxo.outpoint utxo.entry := by
  unfold lockChangeFunding at h
  split_ifs at h
  · rw [← Except.ok.inj h]
    simp
  · obtain ⟨utxo, hutxo, rfl⟩ := Library.map_eq_ok.mp h
    unfold FundingUtxo.fromTransactionOutput at hutxo
    cases houtput : tx.outputs[1]? with
    | none =>
      rw [houtput] at hutxo
      cases hutxo
    | some output =>
      simp only [houtput, u32Max, Nat.reducePow, Nat.reduceSub, Nat.reduceLeDiff, if_true,
        Except.ok.injEq] at hutxo
      intro other hother
      obtain rfl := Option.some.inj hother
      rw [← hutxo]
      exact ⟨rfl, output, houtput, rfl, rfl⟩

theorem mem_rpcFunding {rpcUtxos : List RpcUtxo} {utxo : FundingUtxo}
    (h : utxo ∈ rpcFunding wallet rpcUtxos) :
    ∃ reported ∈ rpcUtxos, reported.outpoint = utxo.outpoint ∧ reported.utxoEntry = utxo.entry ∧
      reported.utxoEntry.isCoinbase = false := by
  obtain ⟨reported, hreported, rfl⟩ := List.mem_map.mp h
  obtain ⟨hmem, hcoinbase⟩ := List.mem_filter.mp hreported
  exact ⟨reported, hmem, rfl, rfl, by simpa using hcoinbase⟩

theorem nodup_rpcFunding {rpcUtxos : List RpcUtxo} (h : (rpcUtxos.map RpcUtxo.outpoint).Nodup) :
    ((rpcFunding wallet rpcUtxos).map FundingUtxo.outpoint).Nodup := by
  have houtpoints : (rpcFunding wallet rpcUtxos).map FundingUtxo.outpoint =
      (rpcUtxos.filter fun utxo => !utxo.utxoEntry.isCoinbase).map RpcUtxo.outpoint := by
    rw [rpcFunding, List.map_map]
    rfl
  rw [houtpoints]
  exact h.sublist (List.filter_sublist.map _)

end

/-- Where the reported outpoints are distinct and none is the lock's own, a run spends nothing
twice. -/
theorem buildContractRun_safe (lib : BuilderLib) (contractName file source : String)
    (wallet : TestWallet) (target : TestnetTarget) (amountSompi : Nat) (rpcUtxos : List RpcUtxo)
    (result : ContractRunResult)
    (h : buildContractRun lib contractName file source wallet target amountSompi rpcUtxos =
      .ok result)
    (hdistinct : (rpcUtxos.map RpcUtxo.outpoint).Nodup)
    (hother : ∀ utxo ∈ rpcUtxos,
      utxo.outpoint.transactionId ≠ lib.transactionId result.lock.rpcTransaction) :
    ∃ unsigned entries,
      signSpend lib wallet result.instantiation unsigned entries =
        .ok result.spend.rpcTransaction ∧
      SafeChain lib rpcUtxos result.lock.rpcTransaction result.spend.rpcTransaction entries := by
  obtain ⟨plan, _, h⟩ := bind_eq_ok.mp h
  obtain ⟨spendName, _, h⟩ := bind_eq_ok.mp h
  obtain ⟨contractParams, _, h⟩ := bind_eq_ok.mp h
  obtain ⟨instantiation, _, h⟩ := bind_eq_ok.mp h
  obtain ⟨lock, hlock, h⟩ := bind_eq_ok.mp h
  obtain ⟨changeUtxo, hchange, h⟩ := bind_eq_ok.mp h
  obtain ⟨spend, hspend, h⟩ := bind_eq_ok.mp h
  obtain rfl := pure_eq_ok.mp h
  obtain ⟨selected, rest, hperm, hlockSpent, hlockInputs, hlockRpc, hdestination⟩ :=
    buildLockTransaction_eq_ok hlock
  obtain ⟨feeFunding, feeRest, unsigned, hfeePerm, hspendSpent, hspendRpc, hsign⟩ :=
    spent_of_buildSpendTransaction hspend
  simp only [hlockRpc, hspendRpc] at hother ⊢
  rw [hlockInputs] at hfeePerm
  refine ⟨unsigned, _, hsign, ?_⟩
  have hfunding := @nodup_rpcFunding wallet rpcUtxos hdistinct
  have hlockReported : ∀ outpoint ∈ lock.tx.spent, ∃ utxo ∈ rpcUtxos,
      utxo.outpoint = outpoint ∧ utxo.utxoEntry.isCoinbase = false := by
    intro outpoint houtpoint
    rw [hlockSpent] at houtpoint
    obtain ⟨utxo, hutxo, rfl⟩ := List.mem_map.mp houtpoint
    obtain ⟨reported, hmem, hsame, _, hcoinbase⟩ :=
      mem_rpcFunding (hperm.mem_iff.mpr (List.mem_append_left _ hutxo))
    exact ⟨reported, hmem, hsame, hcoinbase⟩
  -- an outpoint of the lock's own is neither reported nor spent by it
  have hfresh : ∀ index, (⟨lib.transactionId lock.tx, index⟩ : TransactionOutpoint) ∉
      lock.tx.spent := by
    intro index hmem
    obtain ⟨utxo, hutxo, hsame, _⟩ := hlockReported _ hmem
    exact hother utxo hutxo (by rw [hsame])
  have hpool : ∀ utxo ∈ feeFunding, utxo.outpoint ∉ lock.tx.spent ∧
      utxo.outpoint ≠ ⟨lib.transactionId lock.tx, 0⟩ ∧
      FundsSpend lib rpcUtxos lock.tx utxo.outpoint utxo.entry := by
    intro utxo hutxo
    have hmem := hfeePerm.mem_iff.mpr (List.mem_append_left _ hutxo)
    rcases List.mem_append.mp hmem with hleft | hown
    · obtain ⟨hreported, hunspent⟩ := List.mem_filter.mp hleft
      rw [decide_eq_true_eq] at hunspent
      obtain ⟨reported, hmem, hsame, hentry, _⟩ := mem_rpcFunding hreported
      refine ⟨hunspent, ?_, .inl ⟨reported, hmem, hsame, hentry, hunspent⟩⟩
      intro hlocked
      apply hother reported hmem
      rw [hsame, hlocked]
    · have hspends := lockChangeFunding_eq_ok hchange utxo (Option.mem_toList.mp hown)
      refine ⟨?_, ?_, .inr hspends⟩
      · rw [hspends.1]
        exact hfresh 1
      · rw [hspends.1]
        simp
  have hpoolNodup : (feeFunding.map FundingUtxo.outpoint).Nodup := by
    have hnodup : (((rpcFunding wallet rpcUtxos).filter fun utxo =>
        utxo.outpoint ∉ lock.tx.spent) ++ changeUtxo.toList |>.map FundingUtxo.outpoint).Nodup := by
      rw [List.map_append, List.nodup_append]
      refine ⟨hfunding.sublist (List.filter_sublist.map _), ?_, ?_⟩
      · cases changeUtxo <;> simp
      · intro a ha b hb
        obtain ⟨utxo, hutxo, rfl⟩ := List.mem_map.mp ha
        obtain ⟨own, hown, rfl⟩ := List.mem_map.mp hb
        obtain ⟨reported, hmem, hsame, _⟩ := mem_rpcFunding (List.mem_filter.mp hutxo).1
        have hspends := lockChangeFunding_eq_ok hchange own (Option.mem_toList.mp hown)
        intro heq
        apply hother reported hmem
        rw [hsame, heq, hspends.1]
    rw [(hfeePerm.map FundingUtxo.outpoint).nodup_iff, List.map_append, List.nodup_append] at hnodup
    exact hnodup.1
  constructor
  · rw [hlockSpent]
    rw [(hperm.map FundingUtxo.outpoint).nodup_iff, List.map_append, List.nodup_append] at hfunding
    exact hfunding.1
  · exact hlockReported
  · rw [hspendSpent, List.nodup_cons]
    refine ⟨?_, hpoolNodup⟩
    intro hmem
    obtain ⟨utxo, hutxo, hsame⟩ := List.mem_map.mp hmem
    exact (hpool utxo hutxo).2.1 hsame
  · intro outpoint houtpoint
    rw [hspendSpent] at houtpoint
    rcases List.mem_cons.mp houtpoint with rfl | hmem
    · exact hfresh 0
    · obtain ⟨utxo, hutxo, rfl⟩ := List.mem_map.mp hmem
      exact (hpool utxo hutxo).1
  · refine ⟨_, _, _, _, hspendSpent, rfl, ⟨rfl, _, hdestination, rfl, rfl⟩, ?_⟩
    rw [List.forall₂_map_left_iff, List.forall₂_map_right_iff, List.forall₂_same]
    intro utxo hutxo
    exact (hpool utxo hutxo).2.2

/-- Two wallet outputs, of which the first pays for the lock and its change for the spend. -/
def reportedUtxos : List RpcUtxo :=
  [⟨⟨[1], 0⟩, ⟨200000, payToWallet flatLib flatWallet, 0, false⟩⟩,
    ⟨⟨[1], 1⟩, ⟨50000, payToWallet flatLib flatWallet, 0, false⟩⟩]

theorem buildContractRun_safe_alpha : ∃ result unsigned entries,
    buildContractRun flatLib "Alpha" "closes.ks" alphaSource flatWallet .tn10 100000
      reportedUtxos = .ok result ∧
    signSpend flatLib flatWallet result.instantiation unsigned entries =
      .ok result.spend.rpcTransaction ∧
    SafeChain flatLib reportedUtxos result.lock.rpcTransaction result.spend.rpcTransaction
      entries := by
  have hrun : ∃ result, buildContractRun flatLib "Alpha" "closes.ks" alphaSource flatWallet .tn10
      100000 reportedUtxos = .ok result ∧ result.lock.fee = 2500 := by
    apply Library.toOption_map_eq_some
    rw [buildContractRun, ContractDeploymentPlan.fromSource, compileFileForTarget,
      lowerFile_of_lex lex_alpha]
    decide +kernel
  obtain ⟨result, hrun, _⟩ := hrun
  have hother : ∀ utxo ∈ reportedUtxos,
      utxo.outpoint.transactionId ≠ flatLib.transactionId result.lock.rpcTransaction := by
    have hids : ∀ utxo ∈ reportedUtxos, utxo.outpoint.transactionId ≠ [] := by decide
    exact hids
  obtain ⟨unsigned, entries, hsign, hsafe⟩ := buildContractRun_safe flatLib "Alpha" "closes.ks"
    alphaSource flatWallet .tn10 100000 reportedUtxos result hrun (by decide) hother
  exact ⟨result, unsigned, entries, hrun, hsign, hsafe⟩

end KaspaScript.Testnet
