import KaspaScript.Sdk.Funding

namespace KaspaScript.Testnet

open Library (bind_eq_ok pure_eq_ok rounds rounds_succ of_rounds)

/-- The value of a list of outputs. -/
def outputsValue (outputs : List TransactionOutput) : Nat :=
  (outputs.map TransactionOutput.value).sum

@[simp] theorem outputsValue_append (a b : List TransactionOutput) :
    outputsValue (a ++ b) = outputsValue a + outputsValue b := by
  simp [outputsValue]

@[simp] theorem outputsValue_cons (output : TransactionOutput) (rest : List TransactionOutput) :
    outputsValue (output :: rest) = output.value + outputsValue rest := by
  simp [outputsValue]

@[simp] theorem outputsValue_nil : outputsValue [] = 0 := rfl

section

variable {lib : BuilderLib} {calculator : MassCalculator} {wallet : TestWallet}

/-- What the change output pays out: all of the change, or nothing of dust. -/
theorem outputsValue_changeOutputs (change : Nat) :
    outputsValue (changeOutputs lib calculator wallet change) =
      if calculator.isDust change = true then 0 else change := by
  unfold changeOutputs
  cases hdust : calculator.isDust change with
  | true => simp
  | false =>
    by_cases hzero : change > 0
    · simp [hzero]
    · simp [hzero]
      omega

theorem changeOutputs_dust {change : Nat} (h : calculator.isDust change = true) :
    changeOutputs lib calculator wallet change = changeOutputs lib calculator wallet 0 := by
  simp [changeOutputs, h]

end

/-- The minimum fee of the transaction that pays out a change. -/
def feeWith (lib : BuilderLib) (calculator : MassCalculator) (wallet : TestWallet)
    (refs : List ClientUtxoEntry)
    (candidate : List TransactionOutput → Except TestnetError Transaction) (change : Nat) :
    Option Nat := do
  let tx ← (candidate (changeOutputs lib calculator wallet change)).toOption
  let mass ← (calculateMass calculator tx refs).toOption
  pure (calculator.minimumFee mass)

/-- The change after some rounds: each time what the fee of the transaction before it leaves. -/
def changeAfter (feeOf : Nat → Option Nat) (base total : Nat) : Nat → Nat → Option Nat
  | change, 0 => some change
  | change, k + 1 => do
      let fee ← feeOf change
      changeAfter feeOf base total (total - (base + fee)) k

/-- Within so many rounds the change is what the fee of its own transaction leaves, and is paid
out: there is none or it is not dust. -/
def SettlesFrom (feeOf : Nat → Option Nat) (isDust : Nat → Bool) (base total change rounds : Nat) :
    Prop :=
  ∃ k < rounds, ∃ settled fee, changeAfter feeOf base total change k = some settled ∧
    feeOf settled = some fee ∧ (settled = 0 ∨ isDust settled = false) ∧
    base + fee + settled = total

theorem settlesFrom_zero {feeOf : Nat → Option Nat} {isDust : Nat → Bool}
    {base total change : Nat} : ¬ SettlesFrom feeOf isDust base total change 0 := by
  intro ⟨k, hk, _⟩
  omega

theorem settlesFrom_succ {feeOf : Nat → Option Nat} {isDust : Nat → Bool}
    {base total change fee n : Nat} (hfee : feeOf change = some fee) :
    SettlesFrom feeOf isDust base total change (n + 1) ↔
      (change = 0 ∨ isDust change = false) ∧ base + fee + change = total ∨
        SettlesFrom feeOf isDust base total (total - (base + fee)) n := by
  constructor
  · intro ⟨k, hk, settled, fee', hafter, hfee', hpaid, htotal⟩
    cases k with
    | zero =>
      obtain rfl := Option.some.inj hafter
      obtain rfl := Option.some.inj (hfee.symm.trans hfee')
      exact .inl ⟨hpaid, htotal⟩
    | succ k =>
      simp only [changeAfter, hfee, Option.bind_eq_bind, Option.bind_some] at hafter
      exact .inr ⟨k, by omega, settled, fee', hafter, hfee', hpaid, htotal⟩
  · intro h
    rcases h with ⟨hpaid, htotal⟩ | ⟨k, hk, settled, fee', hafter, hfee', hpaid, htotal⟩
    · exact ⟨0, by omega, change, fee, rfl, hfee, hpaid, htotal⟩
    · refine ⟨k + 1, by omega, settled, fee', ?_, hfee', hpaid, htotal⟩
      simp only [changeAfter, hfee, Option.bind_eq_bind, Option.bind_some]
      exact hafter

/-- A change that is its own successor settles at once or never. -/
theorem settlesFrom_fixed {feeOf : Nat → Option Nat} {isDust : Nat → Bool}
    {base total change fee n : Nat} (hfee : feeOf change = some fee)
    (hfixed : total - (base + fee) = change) :
    SettlesFrom feeOf isDust base total change (n + 1) ↔
      (change = 0 ∨ isDust change = false) ∧ base + fee + change = total := by
  induction n with
  | zero =>
    rw [settlesFrom_succ hfee]
    simp [settlesFrom_zero]
  | succ n ih =>
    rw [settlesFrom_succ hfee, hfixed, ih, or_self]

section

variable {lib : BuilderLib} {calculator : MassCalculator} {wallet : TestWallet}
  {refs : List ClientUtxoEntry} {label : String}
  {candidate : List TransactionOutput → Except TestnetError Transaction}
  {nextChange : Nat → Except TestnetError Nat} {base total paid : Nat}

theorem feeWith_of_feeRound {fee change : Nat} {attempt : Attempt} {next : Nat × Nat}
    (h : feeRound lib calculator wallet refs label candidate nextChange (fee, change) =
      .ok (attempt, next)) :
    feeWith lib calculator wallet refs candidate change = some attempt.fee := by
  obtain ⟨htx, hmass, _, hfee, _⟩ := feeRound_eq_ok.mp h
  simp [feeWith, htx, hmass, hfee, Except.toOption]

/-- A round's transaction pays exactly its own fee when its change is paid out and is what that
fee leaves. The change comes from the rounds before: it is none, or paying none leaves some. -/
theorem pays_iff (hcandidate : ∀ change tx, candidate change = .ok tx →
      outputsValue tx.outputs = paid + outputsValue change)
    {fee change : Nat} {attempt : Attempt} {next : Nat × Nat}
    (hreach : change = 0 ∨ ∀ fee, feeWith lib calculator wallet refs candidate 0 = some fee →
      total - (base + fee) ≠ 0)
    (h : feeRound lib calculator wallet refs label candidate nextChange (fee, change) =
      .ok (attempt, next)) :
    attempt.fee + outputsValue attempt.tx.outputs + base = paid + total ↔
      (change = 0 ∨ calculator.isDust change = false) ∧ base + attempt.fee + change = total := by
  have hfee := feeWith_of_feeRound h
  obtain ⟨htx, _⟩ := feeRound_eq_ok.mp h
  rw [hcandidate _ _ htx, outputsValue_changeOutputs]
  cases hdust : calculator.isDust change with
  | false => simp only [Bool.false_eq_true, if_false, or_true, true_and]; omega
  | true =>
    -- a dust change is dropped, so the transaction is the one without change
    have hnone : feeWith lib calculator wallet refs candidate 0 = some attempt.fee := by
      rw [← hfee, feeWith, feeWith, changeOutputs_dust hdust]
    simp only [if_true, Bool.true_eq_false, or_false]
    constructor
    · intro hpaid
      have hzero : change = 0 := by
        rcases hreach with hzero | hleft
        · exact hzero
        · exact absurd (by omega) (hleft attempt.fee hnone)
      exact ⟨hzero, by omega⟩
    · intro ⟨hzero, hpaid⟩
      omega

/-- A fee loop returns a transaction that pays exactly its fee when its changes settle. -/
theorem settles_of_rounds (hcandidate : ∀ change tx, candidate change = .ok tx →
      outputsValue tx.outputs = paid + outputsValue change)
    (hnext : ∀ fee change, nextChange fee = .ok change → change = total - (base + fee))
    {n fee change : Nat} {last : Option Attempt} {attempt : Attempt} (hn : 0 < n)
    (hreach : change = 0 ∨ ∀ fee, feeWith lib calculator wallet refs candidate 0 = some fee →
      total - (base + fee) ≠ 0)
    (h : rounds (feeRound lib calculator wallet refs label candidate nextChange) n (fee, change)
      last = .ok (some attempt)) :
    attempt.fee + outputsValue attempt.tx.outputs + base = paid + total ↔
      SettlesFrom (feeWith lib calculator wallet refs candidate) calculator.isDust base total
        change n := by
  induction n generalizing fee change last with
  | zero => omega
  | succ n ih =>
    obtain ⟨first, next, hround, h⟩ := rounds_succ.mp h
    have hpays := pays_iff hcandidate hreach hround
    have hfee := feeWith_of_feeRound hround
    obtain ⟨_, _, _, _, hnextFee, hchange⟩ := feeRound_eq_ok.mp hround
    have hleft := hnext _ _ hchange
    split_ifs at h with hsame
    · obtain rfl := Option.some.inj h
      rw [hsame] at hleft
      rw [settlesFrom_fixed hfee hleft.symm, hpays]
    · cases n with
      | zero =>
        obtain rfl := Option.some.inj (Except.ok.inj h)
        rw [settlesFrom_succ hfee, hpays]
        simp [settlesFrom_zero]
      | succ n =>
        have hreach' : next.2 = 0 ∨ ∀ fee,
            feeWith lib calculator wallet refs candidate 0 = some fee →
              total - (base + fee) ≠ 0 := by
          rcases hreach with hzero | hreach
          · by_cases hnone : next.2 = 0
            · exact .inl hnone
            · apply Or.inr
              intro other hother
              rw [hzero] at hfee
              obtain rfl := Option.some.inj (hfee.symm.trans hother)
              rw [← hleft]
              exact hnone
          · exact .inr hreach
        obtain ⟨nextFee, nextChange'⟩ := next
        rw [ih (by omega) hreach' h, settlesFrom_succ hfee, ← hleft]
        constructor
        · exact .inr
        · intro hsettles
          rcases hsettles with ⟨hpaid, htotal⟩ | hsettles
          · -- the change settled in this round, so the next round has the same one
            have hagain : nextChange' = change := by
              simp only at hleft
              omega
            rw [hagain]
            exact ⟨0, by omega, change, first.fee, rfl, hfee, hpaid, htotal⟩
          · exact hsettles

end

/-- The fee shown is what the spent outputs hold beyond the outputs, and at least the minimum for
the mass shown. -/
structure FeePaid (calculator : MassCalculator) (spent : List UtxoEntry)
    (built : BuiltTransaction) : Prop where
  visible : built.preview.fee = entriesValue spent - outputsValue built.tx.outputs
  covered : outputsValue built.tx.outputs ≤ entriesValue spent
  minimum : calculator.minimumFee built.preview.mass ≤
    entriesValue spent - outputsValue built.tx.outputs

theorem feePaid_iff {calculator : MassCalculator} {spent : List UtxoEntry}
    {built : BuiltTransaction}
    (hfee : built.preview.fee = calculator.minimumFee built.preview.mass) :
    FeePaid calculator spent built ↔
      built.preview.fee + outputsValue built.tx.outputs = entriesValue spent := by
  constructor
  · intro h
    have hvisible := h.visible
    have hcovered := h.covered
    omega
  · intro h
    refine ⟨by omega, by omega, ?_⟩
    rw [← hfee]
    omega

section

variable (lib : BuilderLib) (wallet : TestWallet) (target : TestnetTarget)

/-- Ten rounds are enough for a wallet-funded transaction: one of the first ten changes, from none
on and each what the fee of the transaction before it leaves, is none or not dust and is just what
the fee of its own transaction leaves. -/
def FundingSettles (selected : List FundingUtxo) (destinationOutputs : List TransactionOutput)
    (lockTime : Nat) : Prop :=
  let calculator := massCalculator lib target
  SettlesFrom (feeWith lib calculator wallet (selected.map FundingUtxo.clientRef)
      (fundingCandidate lib selected destinationOutputs lockTime))
    calculator.isDust (outputsValue destinationOutputs)
    (entriesValue (selected.map FundingUtxo.entry)) 0 10

/-- The same of a spend, whose fee its wallet funding alone pays. -/
def SpendSettles (instantiation : ContractInstantiation) (locked : LockedContractOutput)
    (feeFunding : List FundingUtxo) : Prop :=
  let calculator := massCalculator lib target
  SettlesFrom (feeWith lib calculator wallet
      (clientRefForLocked locked :: feeFunding.map FundingUtxo.clientRef)
      (spendCandidate lib wallet instantiation locked feeFunding))
    calculator.isDust 0 (entriesValue (feeFunding.map FundingUtxo.entry)) 0 10

end

section

variable {lib : BuilderLib} {wallet : TestWallet} {target : TestnetTarget} {built : BuiltTransaction}

theorem sumU64_entries {utxos : List FundingUtxo}
    (h : entriesValue (utxos.map FundingUtxo.entry) < 2 ^ 64) :
    sumU64 (utxos.map fun utxo => utxo.entry.amount) =
      entriesValue (utxos.map FundingUtxo.entry) := by
  unfold entriesValue at h ⊢
  rw [List.map_map] at h ⊢
  exact Nat.mod_eq_of_lt h

theorem lockChange_eq_ok {base total fee change : Nat} (htotal : total < 2 ^ 64)
    (h : lockChange base total fee = .ok change) : change = total - (base + fee) := by
  unfold lockChange saturatingAdd u64Max at h
  simp only at h
  split_ifs at h
  rw [← Except.ok.inj h]
  omega

theorem feePaid_funding_iff {selected : List FundingUtxo}
    {destinationOutputs : List TransactionOutput} {lockTime : Nat} {scriptLabel : String}
    (hfits : entriesValue (selected.map FundingUtxo.entry) < 2 ^ 64)
    (h : buildSignedFundingTransaction lib wallet target selected destinationOutputs lockTime
      scriptLabel = .ok built) :
    FeePaid (massCalculator lib target) (selected.map FundingUtxo.entry) built ↔
      FundingSettles lib wallet target selected destinationOutputs lockTime := by
  obtain ⟨attempt, hrounds, _, hmass, hfee, _, htx⟩ := buildSignedFundingTransaction_eq_ok h
  have hminimum : attempt.fee = (massCalculator lib target).minimumFee attempt.mass := by
    apply of_rounds _ hrounds (by simp)
    intro state attempt next hround
    exact (feeRound_eq_ok.mp hround).2.2.2.1
  have houtputs : built.tx.outputs = attempt.tx.outputs := by
    rw [htx]
    rfl
  have hpays : outputsValue destinationOutputs ≤ outputsValue attempt.tx.outputs := by
    apply of_rounds _ hrounds (by simp)
    intro state attempt next hround
    obtain ⟨hcandidate, _⟩ := feeRound_eq_ok.mp hround
    rw [← Except.ok.inj hcandidate]
    simp
  rw [feePaid_iff (by rw [hfee, hmass, hminimum]), hfee, houtputs]
  by_cases hbase : outputsValue destinationOutputs < 2 ^ 64
  · have hsum : sumU64 (destinationOutputs.map TransactionOutput.value) =
        outputsValue destinationOutputs := Nat.mod_eq_of_lt hbase
    rw [hsum, sumU64_entries hfits] at hrounds
    have hcandidate : ∀ change tx,
        fundingCandidate lib selected destinationOutputs lockTime change = .ok tx →
          outputsValue tx.outputs = outputsValue destinationOutputs + outputsValue change := by
      intro change tx htx
      rw [← Except.ok.inj htx, outputsValue_append]
    have hloop := settles_of_rounds hcandidate
      (fun fee change hchange => lockChange_eq_ok hfits hchange) (by omega) (.inl rfl) hrounds
    rw [FundingSettles, ← hloop]
    omega
  · -- more than a `u64` is asked for, so nothing can pay it
    constructor
    · intro hsum
      omega
    · intro hsettles
      obtain ⟨_, _, settled, fee, _, _, _, hsum⟩ := hsettles
      omega

theorem feePaid_spend_iff {instantiation : ContractInstantiation} {locked : LockedContractOutput}
    {funding feeFunding : List FundingUtxo}
    (hfits : entriesValue (funding.map FundingUtxo.entry) < 2 ^ 64)
    (hselect : selectFunding funding 10000 = .ok feeFunding)
    (h : buildSpendTransaction lib wallet target instantiation locked funding = .ok built) :
    FeePaid (massCalculator lib target) (spendEntries locked feeFunding) built ↔
      SpendSettles lib wallet target instantiation locked feeFunding := by
  obtain ⟨selected, attempt, hselected, hrounds, _, hmass, hfee, _, hsign⟩ :=
    buildSpendTransaction_eq_ok h
  obtain rfl : selected = feeFunding := Except.ok.inj (hselected.symm.trans hselect)
  have hminimum : attempt.fee = (massCalculator lib target).minimumFee attempt.mass := by
    apply of_rounds _ hrounds (by simp)
    intro state attempt next hround
    exact (feeRound_eq_ok.mp hround).2.2.2.1
  have houtputs : built.tx.outputs = attempt.tx.outputs := (signSpend_eq_ok hsign).1
  have hselectedFits := Nat.lt_of_le_of_lt (entriesValue_selected hselect) hfits
  rw [sumU64_entries hselectedFits] at hrounds
  have hcandidate : ∀ change tx,
      spendCandidate lib wallet instantiation locked selected change = .ok tx →
        outputsValue tx.outputs = locked.amount + outputsValue change := by
    intro change tx htx
    rw [(spendCandidate_eq_ok htx).1]
    exact outputsValue_cons _ _
  have hnext : ∀ fee change,
      spendChange (entriesValue (selected.map FundingUtxo.entry)) fee = .ok change →
        change = entriesValue (selected.map FundingUtxo.entry) - (0 + fee) := by
    intro fee change hchange
    unfold spendChange at hchange
    split_ifs at hchange
    rw [← Except.ok.inj hchange, Nat.zero_add]
  have hspent : entriesValue (spendEntries locked selected) =
      locked.amount + entriesValue (selected.map FundingUtxo.entry) := by
    simp [entriesValue, spendEntries]
  rw [feePaid_iff (by rw [hfee, hmass, hminimum]), hfee, houtputs, hspent, SpendSettles,
    ← settles_of_rounds hcandidate hnext (by omega) (.inl rfl) hrounds, Nat.add_zero]

end

/-- The fee shown is the fee paid, and covers the minimum, exactly when the fee loop's change
settles on an amount that is none or not dust. -/
theorem visibleFee_paid_iff (lib : BuilderLib) (wallet : TestWallet) (target : TestnetTarget) :
    (∀ selected destinationOutputs lockTime scriptLabel built,
      entriesValue (selected.map FundingUtxo.entry) < 2 ^ 64 →
      buildSignedFundingTransaction lib wallet target selected destinationOutputs lockTime
        scriptLabel = .ok built →
      (FeePaid (massCalculator lib target) (selected.map FundingUtxo.entry) built ↔
        FundingSettles lib wallet target selected destinationOutputs lockTime)) ∧
    ∀ instantiation locked funding feeFunding built,
      entriesValue (funding.map FundingUtxo.entry) < 2 ^ 64 →
      selectFunding funding 10000 = .ok feeFunding →
      buildSpendTransaction lib wallet target instantiation locked funding = .ok built →
      (FeePaid (massCalculator lib target) (spendEntries locked feeFunding) built ↔
        SpendSettles lib wallet target instantiation locked feeFunding) := by
  constructor
  · intro selected destinationOutputs lockTime scriptLabel built hfits h
    exact feePaid_funding_iff hfits h
  · intro instantiation locked funding feeFunding built hfits hselect h
    exact feePaid_spend_iff hfits hselect h

/-- Every transaction weighs 2500, each gram costs a sompi, and less than 600 sompi is dust. -/
def flatCalculator : MassCalculator where
  computeMass := fun _ => 2500
  storageMass := fun _ _ => some 0
  combineMass := max
  minimumFee := id
  isDust := fun value => value < 600

/-- Crates with that calculator, whose signatures are all the same and always valid. -/
def flatLib : BuilderLib where
  sha256 := id
  artifactJson := fun _ => .ok []
  bindingsJson := fun _ => .ok []
  payToAddressScript := fun address => ⟨0, 0x20 :: address.payload ++ [0xac]⟩
  payToScriptHashScript := fun script => ⟨0, 0xaa :: script⟩
  extractScriptPubKeyAddress := fun spk network => .ok ⟨network, .scriptHash, spk.script⟩
  massCalculator := fun _ => flatCalculator
  maximumStandardMass := 100000
  txVersion := 0
  maxInputSequence := u64Max
  transactionId := fun _ => []
  signInput := fun _ _ _ _ => 65 :: List.replicate 65 1
  addData := fun script data => .ok (script ++ data)
  sigOpCount := fun _ _ => 1
  executeInput := fun _ _ _ => .ok ()

def flatWallet : TestWallet :=
  ⟨[], ⟨.testnet, .pubKey, List.replicate 32 2⟩, List.replicate 32 2⟩

/-- A wallet output of some amount. -/
def walletUtxo (amount : Nat) : FundingUtxo :=
  .fromRpc ⟨⟨[], 0⟩, ⟨amount, payToWallet flatLib flatWallet, 0, false⟩⟩ flatWallet.address

/-- A change of 500 sompi is dropped, and the fee shown is 2500 where 3000 are paid. -/
theorem visibleFee_hides_dust :
    ∃ built, buildSignedFundingTransaction flatLib flatWallet .tn10 [walletUtxo 103000]
        [⟨100000, ⟨0, []⟩⟩] 0 "lock" = .ok built ∧ built.preview.fee = 2500 ∧
      entriesValue ([walletUtxo 103000].map FundingUtxo.entry) - outputsValue built.tx.outputs =
        3000 ∧
      ¬ FeePaid flatCalculator ([walletUtxo 103000].map FundingUtxo.entry) built := by
  refine ⟨_, rfl, rfl, rfl, ?_⟩
  intro h
  have hvisible : 2500 = 3000 := h.visible
  omega

theorem visibleFee_paid_settled :
    ∃ built, buildSignedFundingTransaction flatLib flatWallet .tn10 [walletUtxo 110000]
        [⟨100000, ⟨0, []⟩⟩] 0 "lock" = .ok built ∧
      FeePaid flatCalculator ([walletUtxo 110000].map FundingUtxo.entry) built := by
  refine ⟨_, rfl, ?_⟩
  apply ((visibleFee_paid_iff flatLib flatWallet .tn10).1 [walletUtxo 110000]
    [⟨100000, ⟨0, []⟩⟩] 0 "lock" _ (by decide) rfl).mpr
  exact ⟨1, by omega, 7500, 2500, rfl, rfl, .inr rfl, rfl⟩

end KaspaScript.Testnet
