import KaspaScript.Native.Agreement

namespace KaspaScript

open Library (Branching bind_eq_ok pure_eq_ok)
open Library.ScriptNum (encode)

/-- What the signers are shown. -/
structure SigningPreview where
  network : String
  transactionVersion : Nat
  path : EscrowPath
  inputOutpoint : String
  inputSompi : Nat
  recipient : String
  recipientSompi : Nat
  changeSompi : Nat
  feeSompi : Nat
  maxFeeSompi : Nat
  refundDaaScore : Nat
  transactionLockTime : Nat
  inputSequence : Nat
  computeBudget : Nat
  requiredSigners : List String
  sourceHash : String
  redeemScriptHex : String
  storageMass : Nat
  estimatedSignedMass : Nat
  broadcast : Bool
  feePolicyVerified : Bool
  nodeAcceptanceVerified : Bool
  deriving DecidableEq, Repr

def planError {α : Type} : Except PlanError α → Except EscrowError α
  | .ok a => .ok a
  | .error error => .error (.plan error)

/-- The transaction with a signature script in its first input. -/
def Transaction.sign (tx : Transaction) (script : Bytes) : Transaction :=
  { tx with inputs := tx.inputs.modify 0 fun input => { input with signatureScript := script } }

inductive NetworkType where
  | mainnet | testnet | devnet | simnet
  deriving DecidableEq, Repr

structure NetworkId where
  networkType : NetworkType
  suffix : Option Nat
  deriving DecidableEq, Repr

structure GetServerInfoResponse where
  networkId : NetworkId
  isSynced : Bool
  hasUtxoIndex : Bool
  virtualDaaScore : Nat
  deriving DecidableEq, Repr

structure EscrowObservation where
  serverInfo : GetServerInfoResponse
  utxos : List (TransactionOutpoint × UtxoEntry)
  deriving DecidableEq, Repr

def validateNode (info : GetServerInfoResponse) : Except EscrowError Unit :=
  if info.networkId ≠ ⟨.testnet, some 10⟩ ∨ !info.isSynced ∨ !info.hasUtxoIndex then
    .error .wrongNode
  else .ok ()

section

variable {Group : Type} (lib : NativeLib Group)

namespace BuyerSellerEscrow

def lockTime (escrow : BuyerSellerEscrow) : EscrowPath → Nat
  | .release => 0
  | .refund => escrow.terms.refundDaaScore

def sequence : EscrowPath → Nat
  | .release => u64Max
  | .refund => 0

/-- The keys whose signatures a path needs, in the order of the signature script. -/
def signers (escrow : BuyerSellerEscrow) : EscrowPath → List Bytes
  | .release => [escrow.buyer, escrow.seller]
  | .refund => [escrow.buyer]

/-- One input, one output to the path's recipient, the rest being the fee. -/
def spendPlan (escrow : BuyerSellerEscrow) (network : String) (outpoint : TransactionOutpoint)
    (utxo : UtxoEntry) (path : EscrowPath) (fee computeBudget : Nat) : Tn10Plan Group where
  network := network
  inputs := [⟨outpoint, utxo, computeBudget, sequence path, []⟩]
  outputs := [⟨utxo.amount - fee, lib.payToAddressScript (escrow.payout path), none⟩]
  genesisGroups := []
  lockTime := escrow.lockTime path
  storageMass := 0
  expectedFee := fee

def preview (escrow : BuyerSellerEscrow) (outpoint : TransactionOutpoint) (utxo : UtxoEntry)
    (path : EscrowPath) (fee computeBudget : Nat) (tx : Transaction) (mass : Nat) :
    SigningPreview where
  network := tn10Network
  transactionVersion := tx.version
  path := path
  inputOutpoint := lib.hexEncode outpoint.transactionId ++ ":" ++ toString outpoint.index
  inputSompi := utxo.amount
  recipient := lib.addressText (escrow.payout path)
  recipientSompi := utxo.amount - fee
  changeSompi := 0
  feeSompi := fee
  maxFeeSompi := escrow.terms.maxFeeSompi
  refundDaaScore := escrow.terms.refundDaaScore
  transactionLockTime := escrow.lockTime path
  -- the source reads the first input, which the plan has
  inputSequence := tx.inputs.head?.elim 0 TransactionInput.sequence
  computeBudget := computeBudget
  requiredSigners := (escrow.signers path).map lib.hexEncode
  sourceHash := escrow.sourceHash
  redeemScriptHex := lib.hexEncode escrow.redeemScript
  storageMass := tx.storageMass
  estimatedSignedMass := mass
  broadcast := false
  feePolicyVerified := false
  nodeAcceptanceVerified := false

/-- The size of a signature, with its hash type. -/
def placeholder : Bytes := List.replicate 64 0 ++ [sigHashAll]

/-- Constructs the transaction of a path from supplied metadata. -/
def unsignedSpend (escrow : BuyerSellerEscrow) (network : String) (outpoint : TransactionOutpoint)
    (utxo : UtxoEntry) (path : EscrowPath) (fee computeBudget : Nat) :
    Except EscrowError (NativeTransaction × SigningPreview) :=
  if network ≠ tn10Network then .error (.plan .wrongNetwork)
  else if utxo.scriptPublicKey ≠ escrow.scriptPublicKey ∨ utxo.covenantId.isSome ∨
      utxo.isCoinbase ∨ utxo.amount > i64Max then .error .wrongUtxo
  else if fee = 0 ∨ fee > escrow.terms.maxFeeSompi ∨ utxo.amount ≤ escrow.terms.maxFeeSompi then
    .error .invalidFee
  else if computeBudget = 0 then .error .mass
  else do
    let native ← planError
      ((escrow.spendPlan lib network outpoint utxo path fee computeBudget).build lib)
    match lib.contextualStorageMass ⟨native.transaction, native.entries⟩ with
    | none => .error .mass
    | some storage => do
        let tx := { native.transaction with storageMass := storage }
        let script ← escrow.signatureScript lib path
          (List.replicate (signerCount path) placeholder)
        let mass := lib.signedMass (tx.sign script) storage
        pure (⟨tx, native.entries, native.fee⟩,
          escrow.preview lib outpoint utxo path fee computeBudget tx mass)

end BuyerSellerEscrow

/-- Spends an escrow output that a node has reported. -/
def EscrowObservation.unsignedSpend (observation : EscrowObservation) (escrow : BuyerSellerEscrow)
    (outpoint : TransactionOutpoint) (path : EscrowPath) (fee computeBudget : Nat) :
    Except EscrowError (NativeTransaction × SigningPreview) := do
  validateNode observation.serverInfo
  if path = .refund ∧ observation.serverInfo.virtualDaaScore ≤ escrow.terms.refundDaaScore then
    .error .refundNotDue
  else match observation.utxos.filter fun entry => entry.1 = outpoint with
    | [] => .error .missingUtxo
    | [entry] => escrow.unsignedSpend lib tn10Network outpoint entry.2 path fee computeBudget
    | _ => .error .wrongUtxo

/-- Runs an input's signature script, then the script whose hash the spent output carries. -/
def p2shAccepts (env : ScriptEnv) : Bool :=
  match env.populated.tx.inputs[env.inputIndex]?, env.populated.entries[env.inputIndex]? with
  | some input, some entry =>
      match runScript env input.signatureScript [] with
      | some (redeem :: stack) =>
          decide (entry.scriptPublicKey = lib.payToScriptHashScript redeem) &&
            accepts (runScript env redeem stack)
      | _ => false
  | _, _ => false

end

section

variable {Group : Type} {lib : NativeLib Group}

theorem encodes_addData (hlib : lib.Lawful) {items : List Bytes} {start out : Bytes}
    (h : items.foldlM lib.addData start = .ok out) :
    ∃ code, out = start ++ code ∧ Encodes code ((items.map Opcode.push).map .plain) :=
  encodes_foldlM hlib.addData h

/-- A signature script leaves the redeem script on the path's flag and the signatures. -/
theorem run_signatureScript (hlib : lib.Lawful) {escrow : BuyerSellerEscrow} {path : EscrowPath}
    {signatures : List Bytes} {script : Bytes}
    (h : escrow.signatureScript lib path signatures = .ok script) (env : ScriptEnv) :
    runScript env script [] =
      some (escrow.redeemScript :: boolBytes (pathFlag path) :: signatures.reverse) := by
  unfold BuyerSellerEscrow.signatureScript at h
  by_cases hwrong : signatures.length ≠ signerCount path ∨
      signatures.any (fun sig => sig.length ≠ 65 || sig[64]? ≠ some sigHashAll)
  · rw [if_pos hwrong] at h
    cases h
  rw [if_neg hwrong] at h
  have hbuilt := scriptError_ok h
  obtain ⟨afterData, hdata, hbuilt⟩ := bind_eq_ok.mp hbuilt
  obtain ⟨afterFlag, hflag, hredeem⟩ := bind_eq_ok.mp hbuilt
  obtain ⟨data, hdata', hencodesData⟩ := encodes_addData hlib hdata
  obtain ⟨flag, hflag', hencodesFlag⟩ := hlib.addI64 hflag
  obtain ⟨redeem, hredeem', hencodesRedeem⟩ := hlib.addData hredeem
  have hpathFlag : encode (if path = .release then 1 else 0) = boolBytes (pathFlag path) := by
    cases path <;> rfl
  rw [hpathFlag] at hencodesFlag
  have hall := (hencodesData.append hencodesFlag).append hencodesRedeem
  have hscript : script = data ++ flag ++ redeem := by
    rw [hredeem', hflag', hdata', List.nil_append]
  have hpushes : (signatures.map Opcode.push).map Branching.plain ++
      [.plain (.push (boolBytes (pathFlag path)))] ++ [.plain (.push escrow.redeemScript)] =
      ((signatures ++ [boolBytes (pathFlag path), escrow.redeemScript]).map Opcode.push).map
        .plain := by
    simp
  rw [hscript, hall.runScript_eq, hpushes, runOps, Library.runBranching_plain]
  change runOpcodes env _ [] = _
  rw [runOpcodes_pushes]
  simp

/-- What an unsigned spend of an accepted escrow is. -/
structure UnsignedSpend (lib : NativeLib Group) (escrow : BuyerSellerEscrow)
    (outpoint : TransactionOutpoint) (utxo : UtxoEntry) (path : EscrowPath) (fee budget : Nat)
    (native : NativeTransaction) : Prop where
  inputs : native.transaction.inputs =
    [⟨outpoint, [], BuyerSellerEscrow.sequence path, budget⟩]
  output : ∃ output, native.transaction.outputs = [output] ∧ output.value + fee = utxo.amount ∧
    output.scriptPublicKey = lib.payToAddressScript (escrow.payout path)
  entries : native.entries = [utxo]
  lockTime : native.transaction.lockTime = escrow.lockTime path
  fee : 0 < fee ∧ fee ≤ escrow.terms.maxFeeSompi ∧ native.fee = fee
  utxo : utxo.scriptPublicKey = escrow.scriptPublicKey ∧ escrow.terms.maxFeeSompi < utxo.amount ∧
    utxo.amount ≤ i64Max

theorem planError_ok {α : Type} {x : Except PlanError α} {a : α} (h : planError x = .ok a) :
    x = .ok a := by
  cases x with
  | ok b => exact congrArg Except.ok (Except.ok.inj h)
  | error error => cases h

theorem unsignedSpend_ok (hlib : lib.Lawful) {escrow : BuyerSellerEscrow} {network : String}
    {outpoint : TransactionOutpoint} {utxo : UtxoEntry} {path : EscrowPath} {fee budget : Nat}
    {native : NativeTransaction} {preview : SigningPreview}
    (h : escrow.unsignedSpend lib network outpoint utxo path fee budget = .ok (native, preview)) :
    UnsignedSpend lib escrow outpoint utxo path fee budget native ∧
      ∃ mass, preview =
        escrow.preview lib outpoint utxo path fee budget native.transaction mass := by
  unfold BuyerSellerEscrow.unsignedSpend at h
  split_ifs at h with hnetwork hutxo hfee hbudget
  obtain ⟨planned, hplanned, h⟩ := bind_eq_ok.mp h
  have hbuilt := Tn10Plan.built_of_build hlib.populate (planError_ok hplanned)
  cases hmass : lib.contextualStorageMass ⟨planned.transaction, planned.entries⟩ with
  | none =>
    rw [hmass] at h
    cases h
  | some storage =>
    rw [hmass] at h
    obtain ⟨script, hscript, h⟩ := bind_eq_ok.mp h
    rw [pure_eq_ok, Prod.mk.injEq] at h
    obtain ⟨hnative, hpreview⟩ := h
    obtain ⟨hspk, _, _, hamount⟩ : utxo.scriptPublicKey = escrow.scriptPublicKey ∧
        ¬ utxo.covenantId.isSome ∧ ¬ utxo.isCoinbase ∧ ¬ utxo.amount > i64Max := by
      simpa only [not_or, not_not] using hutxo
    obtain ⟨hpositive, hcapped, habove⟩ : fee ≠ 0 ∧ ¬ fee > escrow.terms.maxFeeSompi ∧
        ¬ utxo.amount ≤ escrow.terms.maxFeeSompi := by
      simpa only [not_or] using hfee
    have hconserves : utxo.amount - fee + fee = utxo.amount := by omega
    obtain ⟨output, houtputs, hvalue⟩ := List.map_eq_singleton_iff.mp hbuilt.transaction.outputs
    rw [Prod.mk.injEq] at hvalue
    subst hnative
    refine ⟨?_, _, hpreview.symm⟩
    constructor
    · exact hbuilt.transaction.inputs
    · refine ⟨output, houtputs, ?_, hvalue.2⟩
      rw [hvalue.1]
      exact hconserves
    · exact hbuilt.entries
    · exact hbuilt.transaction.lockTime
    · exact ⟨by omega, by omega, hbuilt.fee⟩
    · exact ⟨hspk, by omega, by omega⟩

/-- The signed transaction of an unsigned spend, with the entry it spends. -/
def NativeTransaction.signed (native : NativeTransaction) (script : Bytes) : PopulatedTransaction :=
  ⟨native.transaction.sign script, native.entries⟩

theorem admissible_signed {escrow : BuyerSellerEscrow} {outpoint : TransactionOutpoint}
    {utxo : UtxoEntry} {path : EscrowPath} {fee budget : Nat} {native : NativeTransaction}
    (h : UnsignedSpend lib escrow outpoint utxo path fee budget native) (script : Bytes) :
    Admissible (native.signed script) := by
  obtain ⟨output, houtputs, hvalue, _⟩ := h.output
  obtain ⟨_, _, hamount⟩ := h.utxo
  have hone : 1 ≤ i64Max := by decide
  constructor
  · intro entry hentry
    rw [NativeTransaction.signed, h.entries, List.mem_singleton] at hentry
    rw [hentry]
    exact hamount
  · intro output' houtput'
    rw [NativeTransaction.signed, Transaction.sign, houtputs, List.mem_singleton] at houtput'
    rw [houtput']
    omega
  · rw [NativeTransaction.signed, Transaction.sign, h.inputs]
    exact hone
  · rw [NativeTransaction.signed, Transaction.sign, houtputs]
    exact hone

/-- With its path's signatures in place an unsigned spend settles the escrow. -/
theorem settles_signed {escrow : BuyerSellerEscrow} {outpoint : TransactionOutpoint}
    {utxo : UtxoEntry} {path : EscrowPath} {fee budget : Nat} {native : NativeTransaction}
    (h : UnsignedSpend lib escrow outpoint utxo path fee budget native) (script : Bytes) :
    Settles (native.signed script) escrow.terms.maxFeeSompi
      (lib.payToAddressScript (escrow.payout path)) := by
  obtain ⟨output, houtputs, hvalue, hpayee⟩ := h.output
  obtain ⟨_, hcapped, _⟩ := h.fee
  obtain ⟨_, habove, _⟩ := h.utxo
  refine ⟨⟨outpoint, script, BuyerSellerEscrow.sequence path, budget⟩, utxo, output, ?_, h.entries,
    houtputs, habove, by omega, hpayee⟩
  rw [NativeTransaction.signed, Transaction.sign, h.inputs]
  rfl

theorem refundDue_signed {escrow : BuyerSellerEscrow} (haccepted : Accepted lib escrow)
    {outpoint : TransactionOutpoint} {utxo : UtxoEntry} {fee budget : Nat}
    {native : NativeTransaction}
    (h : UnsignedSpend lib escrow outpoint utxo .refund fee budget native) {script : Bytes}
    {env : ScriptEnv} (henv : env.populated = native.signed script) (hindex : env.inputIndex = 0) :
    RefundDue env escrow.terms.refundDaaScore := by
  have hlock : native.transaction.lockTime = escrow.terms.refundDaaScore := h.lockTime
  have hinputs : (native.signed script).tx.inputs = [⟨outpoint, script, 0, budget⟩] := by
    rw [NativeTransaction.signed, Transaction.sign, h.inputs]
    rfl
  unfold RefundDue
  rw [henv, hindex, hinputs]
  change native.transaction.lockTime < _ ∧ _ ≤ native.transaction.lockTime ∧ _
  rw [hlock]
  have hnonfinal : (0 : Nat) ≠ maxTxInSequenceNum := by decide
  exact ⟨haccepted.deadline.2, Nat.le_refl _, _, rfl, hnonfinal⟩

/-- The signatures verify under the keys of the path. -/
def ValidSignatures (env : ScriptEnv) (signatures keys : List Bytes) : Prop :=
  List.Forall₂ (fun signature key => env.checkSig signature key = true) signatures keys

theorem signed_accepts {escrow : BuyerSellerEscrow} (hlib : lib.Lawful)
    (haccepted : Accepted lib escrow) {outpoint : TransactionOutpoint} {utxo : UtxoEntry}
    {path : EscrowPath} {fee budget : Nat} {native : NativeTransaction}
    (h : UnsignedSpend lib escrow outpoint utxo path fee budget native) {signatures : List Bytes}
    {script : Bytes} (hscript : escrow.signatureScript lib path signatures = .ok script)
    {env : ScriptEnv} (henv : env.populated = native.signed script) (hindex : env.inputIndex = 0)
    (hvalid : ValidSignatures env signatures (escrow.signers path)) :
    p2shAccepts lib env = true := by
  have htx : Admissible env.populated := henv ▸ admissible_signed h script
  have hsettles : Settles env.populated escrow.terms.maxFeeSompi
      (lib.payToAddressScript (escrow.payout path)) := henv ▸ settles_signed h script
  have hinput : env.populated.tx.inputs[env.inputIndex]? =
      some ⟨outpoint, script, BuyerSellerEscrow.sequence path, budget⟩ := by
    rw [henv, hindex, NativeTransaction.signed, Transaction.sign, h.inputs]
    rfl
  have hentry : env.populated.entries[env.inputIndex]? = some utxo := by
    rw [henv, hindex, NativeTransaction.signed, h.entries]
    rfl
  have hpaired : env.populated.entries.length = env.populated.tx.inputs.length := by
    rw [henv, NativeTransaction.signed, Transaction.sign, h.entries, h.inputs]
    rfl
  have hspk : utxo.scriptPublicKey = lib.payToScriptHashScript escrow.redeemScript := by
    rw [h.utxo.1, haccepted.scriptPublicKey]
  have hredeem : accepts (runScript env escrow.redeemScript
      (boolBytes (pathFlag path) :: signatures.reverse)) = true := by
    cases path with
    | release =>
      obtain ⟨s1, _, hs1, hrest, rfl⟩ := List.forall₂_cons_right_iff.mp hvalid
      obtain ⟨s2, _, hs2, hnil, rfl⟩ := List.forall₂_cons_right_iff.mp hrest
      rw [List.forall₂_nil_right_iff.mp hnil]
      exact (release_accepts_iff haccepted htx hpaired s1 s2).mpr ⟨⟨hs1, hs2⟩, hsettles⟩
    | refund =>
      obtain ⟨s, _, hs, hnil, rfl⟩ := List.forall₂_cons_right_iff.mp hvalid
      rw [List.forall₂_nil_right_iff.mp hnil]
      exact (refund_accepts_iff haccepted htx hpaired s).mpr
        ⟨hs, refundDue_signed haccepted h henv hindex, hsettles⟩
  unfold p2shAccepts
  rw [hinput, hentry]
  simp only
  rw [run_signatureScript hlib hscript]
  simp only [hspk, decide_true, Bool.true_and, hredeem]

theorem observed_refund_due {observation : EscrowObservation} {escrow : BuyerSellerEscrow}
    {outpoint : TransactionOutpoint} {path : EscrowPath} {fee budget : Nat}
    {result : NativeTransaction × SigningPreview}
    (h : observation.unsignedSpend lib escrow outpoint path fee budget = .ok result) :
    (path = .refund → escrow.terms.refundDaaScore < observation.serverInfo.virtualDaaScore) ∧
      ∃ utxo, (outpoint, utxo) ∈ observation.utxos ∧
        escrow.unsignedSpend lib tn10Network outpoint utxo path fee budget = .ok result := by
  obtain ⟨_, _, h⟩ := bind_eq_ok.mp h
  split_ifs at h with hdue
  split at h
  · cases h
  · rename_i entry hentry
    have hmem : entry ∈ observation.utxos.filter fun entry => entry.1 = outpoint := by
      rw [hentry]
      exact List.mem_singleton.mpr rfl
    obtain ⟨hmem, heq⟩ := List.mem_filter.mp hmem
    have heq' : entry.1 = outpoint := of_decide_eq_true heq
    refine ⟨?_, entry.2, heq' ▸ hmem, h⟩
    intro hrefund
    by_contra hearly
    exact hdue ⟨hrefund, Nat.le_of_not_lt hearly⟩
  · cases h

/-- An unsigned spend accounts for every sompi, shows its signers what it does, and is accepted
once they have signed; an observed refund waits for the deadline. -/
theorem unsignedSpend_acceptable (hlib : lib.Lawful) {terms : EscrowTerms}
    {escrow : BuyerSellerEscrow} (hnew : BuyerSellerEscrow.new lib terms = .ok escrow)
    (outpoint : TransactionOutpoint) (path : EscrowPath) (fee budget : Nat)
    (native : NativeTransaction) (preview : SigningPreview) :
    (∀ network utxo, escrow.unsignedSpend lib network outpoint utxo path fee budget =
        .ok (native, preview) →
      (∃ input output, native.transaction.inputs = [input] ∧ input.previousOutpoint = outpoint ∧
        native.transaction.outputs = [output] ∧ output.value + fee = utxo.amount ∧ 0 < fee ∧
        fee ≤ terms.maxFeeSompi ∧ preview.inputSompi = utxo.amount ∧
        preview.recipientSompi = output.value ∧ preview.feeSompi = fee ∧
        preview.changeSompi = 0 ∧ preview.recipient = lib.addressText (escrow.payout path) ∧
        output.scriptPublicKey = lib.payToAddressScript (escrow.payout path) ∧
        preview.transactionLockTime = native.transaction.lockTime ∧
        preview.inputSequence = input.sequence) ∧
      ∀ signatures script, escrow.signatureScript lib path signatures = .ok script →
        ∀ env : ScriptEnv, env.populated = native.signed script → env.inputIndex = 0 →
          ValidSignatures env signatures (escrow.signers path) → p2shAccepts lib env = true) ∧
    ∀ observation : EscrowObservation,
      observation.unsignedSpend lib escrow outpoint path fee budget = .ok (native, preview) →
        path = .refund → terms.refundDaaScore < observation.serverInfo.virtualDaaScore ∧
          native.transaction.lockTime = terms.refundDaaScore := by
  obtain ⟨hterms, haccepted⟩ := accepted_of_new hlib hnew
  rw [← hterms]
  constructor
  · intro network utxo h
    obtain ⟨hspend, mass, hpreview⟩ := unsignedSpend_ok hlib h
    obtain ⟨output, houtputs, hvalue, hpayee⟩ := hspend.output
    obtain ⟨hpositive, hcapped, _⟩ := hspend.fee
    constructor
    · refine ⟨_, output, hspend.inputs, rfl, houtputs, hvalue, hpositive, hcapped, ?_⟩
      rw [hpreview]
      refine ⟨rfl, ?_, rfl, rfl, rfl, hpayee, hspend.lockTime.symm, ?_⟩
      · change utxo.amount - fee = output.value
        omega
      · change native.transaction.inputs.head?.elim 0 TransactionInput.sequence = _
        rw [hspend.inputs]
        rfl
    · intro signatures script hscript env henv hindex hvalid
      exact signed_accepts hlib haccepted hspend hscript henv hindex hvalid
  · intro observation h hrefund
    obtain ⟨hdue, utxo, _, hspend⟩ := observed_refund_due h
    obtain ⟨hspend, _⟩ := unsignedSpend_ok hlib hspend
    refine ⟨hdue hrefund, ?_⟩
    rw [hspend.lockTime, hrefund]
    rfl

end

/-- A node that has passed the deadline 128 and reports one output of the escrow. -/
def lateObservation (escrow : BuyerSellerEscrow) : EscrowObservation where
  serverInfo := ⟨⟨.testnet, some 10⟩, true, true, 200⟩
  utxos := [(⟨List.replicate 32 7, 0⟩, ⟨100000000, escrow.scriptPublicKey, 1, false, none⟩)]

def buyerSignature : Bytes := List.replicate 64 7 ++ [sigHashAll]

/-- The buyer's refund of the reported output, and its signature script. -/
def lateRefund (escrow : BuyerSellerEscrow) :
    Except EscrowError (NativeTransaction × SigningPreview × Bytes) := do
  let (native, preview) ←
    (lateObservation escrow).unsignedSpend testnetLib escrow ⟨List.replicate 32 7, 0⟩ .refund 100 1000
  let script ← escrow.signatureScript testnetLib .refund [buyerSignature]
  pure (native, preview, script)

theorem lateRefund_sampleTerms : ∃ escrow native preview script,
    BuyerSellerEscrow.new testnetLib (sampleTerms 128) = .ok escrow ∧
    (lateObservation escrow).unsignedSpend testnetLib escrow ⟨List.replicate 32 7, 0⟩ .refund 100
      1000 = .ok (native, preview) ∧
    escrow.signatureScript testnetLib .refund [buyerSignature] = .ok script ∧
    escrow.buyer = buyerKey := by
  have hrun : ∃ result, (do
      let escrow ← BuyerSellerEscrow.new testnetLib (sampleTerms 128)
      let refund ← lateRefund escrow
      pure (escrow, refund)) = .ok result ∧ result.1.buyer = buyerKey := by
    apply Library.toOption_map_eq_some
    rw [BuyerSellerEscrow.new, compileFileForTarget, lowerFile_of_lex lex_escrow]
    decide +kernel
  obtain ⟨⟨escrow, native, preview, script⟩, hrun, hbuyer⟩ := hrun
  obtain ⟨escrow', hnew, hrun⟩ := bind_eq_ok.mp hrun
  obtain ⟨refund, hrefund, hresult⟩ := bind_eq_ok.mp hrun
  rw [pure_eq_ok, Prod.mk.injEq] at hresult
  obtain ⟨⟨native', preview'⟩, hspend, hrefund⟩ := bind_eq_ok.mp hrefund
  obtain ⟨script', hscript, hrefund⟩ := bind_eq_ok.mp hrefund
  rw [hresult.1] at hnew hspend hscript
  exact ⟨escrow, native', preview', script', hnew, hspend, hscript, hbuyer⟩

theorem unsignedSpend_acceptable_lateRefund : ∃ escrow native preview script,
    BuyerSellerEscrow.new testnetLib (sampleTerms 128) = .ok escrow ∧
    (lateObservation escrow).unsignedSpend testnetLib escrow ⟨List.replicate 32 7, 0⟩ .refund 100
      1000 = .ok (native, preview) ∧
    native.transaction.lockTime = 128 ∧ preview.recipientSompi + 100 = 100000000 ∧
    p2shAccepts testnetLib ⟨native.signed script, 0,
      fun signature key => signature = buyerSignature ∧ key = buyerKey, id, id⟩ = true := by
  obtain ⟨escrow, native, preview, script, hnew, hspend, hscript, hbuyer⟩ := lateRefund_sampleTerms
  obtain ⟨hspends, hobserved⟩ := unsignedSpend_acceptable testnetLib_lawful hnew
    ⟨List.replicate 32 7, 0⟩ .refund 100 1000 native preview
  obtain ⟨_, utxo, hutxo, hdirect⟩ := observed_refund_due hspend
  have hamount : utxo.amount = 100000000 := by
    rw [lateObservation, List.mem_singleton, Prod.mk.injEq] at hutxo
    rw [hutxo.2]
  obtain ⟨⟨input, output, _, _, _, hvalue, _, _, _, hrecipient, _⟩, haccepts⟩ :=
    hspends tn10Network utxo hdirect
  refine ⟨escrow, native, preview, script, hnew, hspend, (hobserved _ hspend rfl).2, ?_, ?_⟩
  · rw [hrecipient, hvalue, hamount]
  · apply haccepts [buyerSignature] script hscript _ rfl rfl
    refine .cons ?_ .nil
    simp [hbuyer]

end KaspaScript
