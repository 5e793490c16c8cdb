import KaspaScript.Sdk.Run
import KaspaScript.Sdk.Unlocked

namespace KaspaScript.Testnet

open Library (bind_eq_ok forM_eq_ok pure_eq_ok)

/-- The transaction as the script engine sees it; none of these crates' outputs has a covenant. -/
def Transaction.populated (tx : Transaction) (entries : List UtxoEntry) : PopulatedTransaction where
  tx :=
    { version := tx.version
      inputs := tx.inputs.map fun input =>
        ⟨input.previousOutpoint, input.signatureScript, input.sequence, input.sigOpCount⟩
      outputs := tx.outputs.map fun output => ⟨output.value, output.scriptPublicKey, none⟩
      lockTime := tx.lockTime
      storageMass := tx.mass }
  entries := entries.map fun entry =>
    ⟨entry.amount, entry.scriptPublicKey, entry.blockDaaScore, entry.isCoinbase, none⟩

/-- What the engine's crates compute: whether a signature over an input of a transaction verifies
under a key, and the hash of `blake2b`. -/
structure Crypto where
  checkSig : Transaction → List UtxoEntry → Nat → Bytes → Bytes → Bool
  blake2b : Bytes → Bytes

def scriptEnv (lib : BuilderLib) (crypto : Crypto) (tx : Transaction) (entries : List UtxoEntry)
    (index : Nat) : ScriptEnv :=
  ⟨tx.populated entries, index, crypto.checkSig tx entries index, lib.sha256, crypto.blake2b⟩

/-- The engine passes an input of a script hash only if its signature script unlocks it. -/
def Executes (lib : BuilderLib) (crypto : Crypto) : Prop :=
  ∀ tx entries index input entry redeem, tx.inputs[index]? = some input →
    entries[index]? = some entry → entry.scriptPublicKey = lib.payToScriptHashScript redeem →
    lib.executeInput tx entries index = .ok () →
    unlocks lib.toScriptLib (scriptEnv lib crypto tx entries index) entry.scriptPublicKey
      input.signatureScript = true

/-- The payload of the wallet's signature over the first input of a transaction with the same
outpoints, sequences, outputs and lock time. -/
def SignedByWallet (lib : BuilderLib) (wallet : TestWallet) (tx : Transaction)
    (entries : List UtxoEntry) (signature : Bytes) : Prop :=
  ∃ unsigned : Transaction, unsigned.outputs = tx.outputs ∧ unsigned.lockTime = tx.lockTime ∧
    unsigned.inputs.map TransactionInput.unsigned = tx.inputs.map TransactionInput.unsigned ∧
    parseSingleSignaturePayload (lib.signInput unsigned entries 0 wallet.secretBytes) =
      .ok signature

section

variable {lib : BuilderLib} {wallet : TestWallet} {instantiation : ContractInstantiation}
  {tx signed : Transaction} {entries : List UtxoEntry}

/-- Every input has been run. -/
theorem executeInput_of_validateScripts (h : validateScripts lib tx entries = .ok ()) {index : Nat}
    (hindex : index < tx.inputs.length) : lib.executeInput tx entries index = .ok () := by
  have hchecked := forM_eq_ok.mp h index (List.mem_range.mpr hindex)
  split_ifs at hchecked
  · exact Library.mapError_eq_ok.mp hchecked

/-- A spend that is signed carries the wallet's signature once for each of its arguments, and its
scripts have been run. -/
theorem signed_of_signSpend (h : signSpend lib wallet instantiation tx entries = .ok signed) :
    ∃ signature script, SignedByWallet lib wallet signed entries signature ∧
      buildContractSignatureScript lib instantiation.redeemScript
        (instantiation.spendArgs.map fun _ => signature) = .ok script ∧
      (∀ input ∈ signed.inputs.head?, input.signatureScript = script) ∧
      validateScripts lib signed entries = .ok () := by
  obtain ⟨houtputs, hlock, hinputs⟩ := signSpend_eq_ok h
  obtain ⟨tx', hcontract, h⟩ := bind_eq_ok.mp h
  obtain ⟨_, hvalid, h⟩ := bind_eq_ok.mp h
  obtain rfl := pure_eq_ok.mp h
  obtain ⟨signature, hsignature, hcontract⟩ := bind_eq_ok.mp hcontract
  obtain ⟨payloads, hpayloads, hcontract⟩ := bind_eq_ok.mp hcontract
  obtain ⟨script, hscript, hcontract⟩ := bind_eq_ok.mp hcontract
  obtain ⟨count, hcount, hcontract⟩ := bind_eq_ok.mp hcontract
  obtain rfl := pure_eq_ok.mp hcontract
  have hsame : List.Forall₂ Eq (instantiation.spendArgs.map fun _ => signature) payloads := by
    rw [List.forall₂_map_left_iff]
    apply (Library.forall₂_of_mapM hpayloads).imp
    intro param payload hpayload
    split_ifs at hpayload
    exact Except.ok.inj hpayload
  rw [List.forall₂_eq_eq_eq] at hsame
  refine ⟨signature, script, ⟨signP2pkInputs lib tx entries wallet 1, houtputs.symm, hlock.symm, ?_,
    hsignature⟩, hsame ▸ hscript, ?_, hvalid⟩
  · rw [hinputs, signP2pkInputs_unsigned]
  · intro input hinput
    unfold setContractScript at hinput
    cases hhead : (signP2pkInputs lib tx entries wallet 1).inputs with
    | nil => simp [hhead] at hinput
    | cons first rest =>
      simp only [hhead, List.modifyHead_cons, List.head?_cons, Option.mem_def,
        Option.some.injEq] at hinput
      rw [← hinput]

/-- Whoever signs a spend of the instantiated output only gets it where all its requires are true of
his signature. -/
theorem requires_of_signSpend {crypto : Crypto} (hlib : PushesData lib)
    (hengine : Executes lib crypto) {file contractName spendName : String}
    {artifact : CompiledArtifact} {bindings : Bindings} {contract : Contract} {spend : Spend}
    {compiledContract : ArtifactContract} {compiled : ArtifactSpend} {code : List Instruction}
    (hbound : BoundFrom lib.toScriptLib file artifact contractName spendName bindings instantiation
      contract spend compiledContract compiled code)
    (h : signSpend lib wallet instantiation tx entries = .ok signed)
    (hinputs : signed.inputs ≠ [])
    (hentry : entries.head?.map UtxoEntry.scriptPublicKey = some instantiation.scriptPublicKey) :
    ∃ signature, SignedByWallet lib wallet signed entries signature ∧
      ∀ asScript, PlainSpend file spend compiledContract compiled bindings asScript →
        Admissible (signed.populated entries) → ∀ stmt ∈ spend.body,
          ((scriptEnv lib crypto signed entries 0).context (boundVal lib.toScriptLib compiled
            bindings (fun _ => signature) asScript)).eval stmt.expr = some (.bool true) := by
  obtain ⟨signature, script, hsigned, hscript, hfirst, hvalid⟩ := signed_of_signSpend h
  refine ⟨signature, hsigned, ?_⟩
  intro asScript hplain htx
  obtain ⟨input, hinput⟩ := List.exists_mem_of_ne_nil _ hinputs
  have hzero : 0 < signed.inputs.length := List.length_pos_of_mem hinput
  obtain ⟨entry, hentry, hlocking⟩ := Option.map_eq_some_iff.mp hentry
  rw [List.head?_eq_getElem?] at hentry
  have hhead : signed.inputs[0]? = some signed.inputs[0] := List.getElem?_eq_getElem hzero
  have hunlocks := hengine signed entries 0 _ entry instantiation.redeemScript hhead hentry
    (hlocking.trans hbound.locking) (executeInput_of_validateScripts hvalid hzero)
  rw [hfirst _ (by rw [List.head?_eq_getElem?, hhead]; rfl), hlocking] at hunlocks
  rw [hbound.spendArgs] at hscript
  exact (unlocks_plain hlib hbound hplain htx hscript).mp hunlocks

end

theorem compile_of_fromSource {lib : BuilderLib} {contractName file source : String}
    {plan : ContractDeploymentPlan}
    (h : ContractDeploymentPlan.fromSource lib contractName file source = .ok plan) :
    compileFileForTarget lib.sha256 source file .verifiedTn12 = .ok plan.artifact := by
  obtain ⟨artifact, hcompile, h⟩ := bind_eq_ok.mp h
  obtain ⟨_, _, h⟩ := bind_eq_ok.mp h
  obtain ⟨_, _, h⟩ := bind_eq_ok.mp h
  obtain rfl := pure_eq_ok.mp h
  exact Library.mapError_eq_ok.mp hcompile

/-- A run from a source to the transaction that spends its contract again: the transaction comes out
only where every require of the spend is true of it, of the bound parameters and of the wallet's
signature. -/
theorem buildContractRun_satisfies (lib : BuilderLib) (hlib : PushesData lib) (crypto : Crypto)
    (hengine : Executes lib crypto) (contractName file source : String) (wallet : TestWallet)
    (target : TestnetTarget) (amountSompi : Nat) (rpcUtxos : List RpcUtxo)
    (result : ContractRunResult)
    (h : buildContractRun lib contractName file source wallet target amountSompi rpcUtxos =
      .ok result) :
    ∃ program, parseFile source file = .ok program ∧ ∃ contract ∈ program.contracts,
      ∃ spend ∈ contract.spends, ∃ compiledContract compiled code spendName bindings,
        defaultContractParams result.plan.artifact contractName wallet = .ok bindings ∧
        BoundFrom lib.toScriptLib file result.plan.artifact contractName spendName bindings
          result.instantiation contract spend compiledContract compiled code ∧
        ∃ others signature,
          let entries := ⟨amountSompi, result.instantiation.scriptPublicKey, 0, false⟩ :: others
          SignedByWallet lib wallet result.spend.rpcTransaction entries signature ∧
          ∀ asScript, PlainSpend file spend compiledContract compiled bindings asScript →
            Admissible (result.spend.rpcTransaction.populated entries) → ∀ stmt ∈ spend.body,
              ((scriptEnv lib crypto result.spend.rpcTransaction entries 0).context
                (boundVal lib.toScriptLib compiled bindings (fun _ => signature) asScript)).eval
                stmt.expr = some (.bool true) := by
  obtain ⟨plan, hplan, h⟩ := bind_eq_ok.mp h
  obtain ⟨spendName, _, h⟩ := bind_eq_ok.mp h
  obtain ⟨bindings, hbindings, h⟩ := bind_eq_ok.mp h
  obtain ⟨instantiation, hinstantiate, h⟩ := bind_eq_ok.mp h
  obtain ⟨lock, _, h⟩ := bind_eq_ok.mp h
  obtain ⟨changeUtxo, _, h⟩ := bind_eq_ok.mp h
  obtain ⟨built, hspend, h⟩ := bind_eq_ok.mp h
  obtain rfl := pure_eq_ok.mp h
  obtain ⟨program, hparse, _, contract, hcontract, spend, hmem, compiledContract, compiled, code,
    hbound⟩ := boundFrom_of_instantiateContract (compile_of_fromSource hplan) hinstantiate
  refine ⟨program, hparse, contract, hcontract, spend, hmem, compiledContract, compiled, code,
    spendName, bindings, hbindings, hbound, ?_⟩
  obtain ⟨feeFunding, _, unsigned, _, hspent, hrpc, hsign⟩ := spent_of_buildSpendTransaction hspend
  have hinputs : built.tx.inputs ≠ [] := by
    intro hnil
    rw [Transaction.spent, hnil] at hspent
    cases hspent
  obtain ⟨signature, hsigned, hrequires⟩ :=
    requires_of_signSpend hlib hengine hbound hsign hinputs rfl
  simp only [hrpc]
  exact ⟨feeFunding.map FundingUtxo.entry, signature, hsigned, hrequires⟩

/-- A signature verifies under the wallet's key if its bytes are ones. -/
def onesCrypto : Crypto where
  checkSig := fun _ _ _ signature key =>
    signature = List.replicate 65 1 ∧ key = flatWallet.publicKey
  blake2b := id

/-- The crates of the examples, with an engine that runs the inputs of script hashes. -/
def runningLib : BuilderLib :=
  { pushingLib with
    executeInput := fun tx entries index =>
      match tx.inputs[index]?, entries[index]? with
      | some input, some entry =>
          if entry.scriptPublicKey.script.head? = some 0xaa ∧
              unlocks pushingLib.toScriptLib (scriptEnv pushingLib onesCrypto tx entries index)
                entry.scriptPublicKey input.signatureScript = false then
            .error "script ran, but verification failed"
          else .ok ()
      | _, _ => .error "no such input" }

theorem executes_runningLib : Executes runningLib onesCrypto := by
  intro tx entries index input entry redeem hinput hentry hscript h
  have hrun : (if entry.scriptPublicKey.script.head? = some 0xaa ∧
      unlocks pushingLib.toScriptLib (scriptEnv pushingLib onesCrypto tx entries index)
        entry.scriptPublicKey input.signatureScript = false then
      Except.error "script ran, but verification failed" else .ok ()) = Except.ok () := by
    simpa only [runningLib, hinput, hentry] using h
  split_ifs at hrun with hfails
  rw [not_and, Bool.not_eq_false] at hfails
  exact hfails (by rw [hscript]; rfl)

/-- A run of the closing contract ends in a spend under a signature that verifies. -/
theorem buildContractRun_satisfies_alpha : ∃ result others signature,
    buildContractRun runningLib "Alpha" "closes.ks" alphaSource flatWallet .tn10 100000
      reportedUtxos = .ok result ∧
    SignedByWallet runningLib flatWallet result.spend.rpcTransaction
      (⟨100000, result.instantiation.scriptPublicKey, 0, false⟩ :: others) signature ∧
    (Admissible (result.spend.rpcTransaction.populated
        (⟨100000, result.instantiation.scriptPublicKey, 0, false⟩ :: others)) →
      onesCrypto.checkSig result.spend.rpcTransaction
        (⟨100000, result.instantiation.scriptPublicKey, 0, false⟩ :: others) 0 signature
        flatWallet.publicKey = true) := by
  have hrun : ∃ result, buildContractRun runningLib "Alpha" "closes.ks" alphaSource flatWallet
      .tn10 100000 reportedUtxos = .ok result ∧
      (result.plan.artifact.contracts, result.spend.fee) = ([alphaArtifactContract], 2500) := by
    apply Library.toOption_map_eq_some
    rw [buildContractRun, ContractDeploymentPlan.fromSource, compileFileForTarget,
      lowerFile_of_lex lex_alpha]
    decide +kernel
  obtain ⟨result, hrun, hcontracts⟩ := hrun
  obtain ⟨program, hparse, contract, hcontract, spend, hspend, compiledContract, compiled, code,
    spendName, bindings, hbindings, hbound, others, signature, hsigned, hrequires⟩ :=
    buildContractRun_satisfies runningLib pushesData_pushingLib onesCrypto executes_runningLib
      "Alpha" "closes.ks" alphaSource flatWallet .tn10 100000 reportedUtxos result hrun
  obtain ⟨hcontracts, _⟩ := Prod.mk.inj hcontracts
  obtain ⟨rfl, rfl, rfl⟩ := boundFrom_alpha hcontracts hparse hcontract hspend hbound
  rw [defaultContractParams, hbound.contractFound] at hbindings
  have howner : bindings = [("owner", .publicKey flatWallet.publicKey)] :=
    (Except.ok.inj hbindings).symm
  subst howner
  refine ⟨result, others, signature, hrun, hsigned, ?_⟩
  intro htx
  have hrequire := hrequires _ (plainSpend_alpha flatWallet.publicKey) htx _
    (List.mem_singleton_self _)
  exact Val.bool.inj (Option.some.inj hrequire)

end KaspaScript.Testnet
