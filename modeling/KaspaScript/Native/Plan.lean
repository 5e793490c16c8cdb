import KaspaScript.Native.Chain

namespace KaspaScript

open Library (bind_eq_ok pure_eq_ok)

def tn10Network : String := "kaspa-testnet-10"

structure InputPlan where
  outpoint : TransactionOutpoint
  utxo : UtxoEntry
  computeBudget : Nat
  sequence : Nat
  witness : Bytes
  deriving DecidableEq, Repr

structure Tn10Plan (Group : Type) where
  network : String
  inputs : List InputPlan
  outputs : List TransactionOutput
  genesisGroups : List Group
  lockTime : Nat
  storageMass : Nat
  expectedFee : Nat

inductive PlanError where
  | wrongNetwork | empty | duplicateInput | overflow | feeMismatch
  | covenant (reason : String)
  deriving DecidableEq, Repr

structure NativeTransaction where
  transaction : Transaction
  entries : List UtxoEntry
  fee : Nat
  deriving DecidableEq, Repr

def checkedAdd (sum value : Nat) : Except PlanError Nat :=
  if sum + value ≤ u64Max then .ok (sum + value) else .error .overflow

def checkedSum (values : List Nat) : Except PlanError Nat := values.foldlM checkedAdd 0

def InputPlan.transactionInput (input : InputPlan) : TransactionInput :=
  ⟨input.outpoint, input.witness, input.sequence, input.computeBudget⟩

def covenantError {α : Type} : Except String α → Except PlanError α
  | .ok a => .ok a
  | .error reason => .error (.covenant reason)

/-- Builds the transaction of a plan whose fee is explicit. -/
def Tn10Plan.build {Group : Type} (lib : NativeLib Group) (plan : Tn10Plan Group) :
    Except PlanError NativeTransaction :=
  if plan.network ≠ tn10Network then .error .wrongNetwork
  else if plan.inputs = [] ∨ plan.outputs = [] then .error .empty
  else if ¬ (plan.inputs.map InputPlan.outpoint).Nodup then .error .duplicateInput
  else do
    let totalIn ← checkedSum (plan.inputs.map fun input => input.utxo.amount)
    let totalOut ← checkedSum (plan.outputs.map TransactionOutput.value)
    if totalIn < totalOut ∨ totalIn - totalOut ≠ plan.expectedFee then .error .feeMismatch
    else do
      let entries := plan.inputs.map InputPlan.utxo
      let transaction ← covenantError (lib.populateGenesisCovenants plan.genesisGroups
        ⟨1, plan.inputs.map InputPlan.transactionInput, plan.outputs, plan.lockTime,
          plan.storageMass⟩)
      let _ ← covenantError (lib.covenantsContext ⟨transaction, entries⟩)
      pure ⟨transaction, entries, totalIn - totalOut⟩

theorem foldlM_checkedAdd {values : List Nat} {start : Nat} (hstart : start ≤ u64Max) :
    values.foldlM checkedAdd start =
      if start + values.sum ≤ u64Max then .ok (start + values.sum) else .error .overflow := by
  induction values generalizing start with
  | nil =>
    rw [List.foldlM_nil, List.sum_nil, Nat.add_zero, if_pos hstart]
    rfl
  | cons value rest ih =>
    rw [List.foldlM_cons, List.sum_cons, ← Nat.add_assoc, checkedAdd]
    by_cases hfits : start + value ≤ u64Max
    · rw [if_pos hfits]
      exact ih hfits
    · have hover : ¬ start + value + rest.sum ≤ u64Max := by omega
      rw [if_neg hfits, if_neg hover]
      rfl

/-- A checked sum is the sum, and overflows exactly when the sum does. -/
theorem checkedSum_eq (values : List Nat) :
    checkedSum values = if values.sum ≤ u64Max then .ok values.sum else .error .overflow := by
  have hgo := @foldlM_checkedAdd values 0 (Nat.zero_le u64Max)
  rwa [Nat.zero_add] at hgo

theorem checkedSum_ok {values : List Nat} {total : Nat} (h : checkedSum values = .ok total) :
    total = values.sum ∧ total ≤ u64Max := by
  rw [checkedSum_eq] at h
  split_ifs at h with hfits
  rw [Except.ok.injEq] at h
  subst h
  exact ⟨rfl, hfits⟩

theorem covenantError_ok {α : Type} {x : Except String α} {a : α} (h : covenantError x = .ok a) :
    x = .ok a := by
  cases x with
  | ok b => exact congrArg Except.ok (Except.ok.inj h)
  | error reason => cases h

/-- What a plan that builds is and what it builds. -/
structure Tn10Plan.Built {Group : Type} (plan : Tn10Plan Group) (native : NativeTransaction) :
    Prop where
  network : plan.network = tn10Network
  inputsNonempty : plan.inputs ≠ []
  outputsNonempty : plan.outputs ≠ []
  outpointsNodup : (plan.inputs.map InputPlan.outpoint).Nodup
  conserves : (plan.inputs.map fun input => input.utxo.amount).sum =
    (plan.outputs.map TransactionOutput.value).sum + plan.expectedFee
  inputSumFits : (plan.inputs.map fun input => input.utxo.amount).sum ≤ u64Max
  transaction : SameButCovenants ⟨1, plan.inputs.map InputPlan.transactionInput, plan.outputs,
    plan.lockTime, plan.storageMass⟩ native.transaction
  entries : native.entries = plan.inputs.map InputPlan.utxo
  fee : native.fee = plan.expectedFee

theorem Tn10Plan.built_of_build {Group : Type} {lib : NativeLib Group}
    (hpopulate : ∀ {groups tx tx'}, lib.populateGenesisCovenants groups tx = .ok tx' →
      SameButCovenants tx tx') {plan : Tn10Plan Group} {native : NativeTransaction} (h : plan.build lib = .ok native) :
    plan.Built native := by
  unfold Tn10Plan.build at h
  split_ifs at h with hnetwork hempty hnodup
  obtain ⟨totalIn, hin, h⟩ := bind_eq_ok.mp h
  obtain ⟨totalOut, hout, h⟩ := bind_eq_ok.mp h
  split_ifs at h with hfee
  obtain ⟨tx, htx, h⟩ := bind_eq_ok.mp h
  obtain ⟨_, _, h⟩ := bind_eq_ok.mp h
  rw [pure_eq_ok] at h
  obtain ⟨hsumIn, hmaxIn⟩ := checkedSum_ok hin
  obtain ⟨hsumOut, _⟩ := checkedSum_ok hout
  obtain ⟨hinputs, houtputs⟩ := not_or.mp hempty
  subst h
  constructor
  · exact not_not.mp hnetwork
  · exact hinputs
  · exact houtputs
  · exact hnodup
  · omega
  · omega
  · exact hpopulate (covenantError_ok htx)
  · rfl
  · change totalIn - totalOut = plan.expectedFee
    omega

end KaspaScript
