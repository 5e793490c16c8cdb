import KaspaScript.Native.Agreement

namespace KaspaScript

variable {Group : Type} {lib : NativeLib Group}

def Tn10Plan.inputSum (plan : Tn10Plan Group) : Nat :=
  (plan.inputs.map fun input => input.utxo.amount).sum

def Tn10Plan.outputSum (plan : Tn10Plan Group) : Nat :=
  (plan.outputs.map TransactionOutput.value).sum

/-- What a built transaction takes over from its plan, with nothing lost and nothing made. -/
structure Tn10Plan.Conserved (plan : Tn10Plan Group) (built : NativeTransaction) : Prop where
  inputsNonempty : plan.inputs ≠ []
  outputsNonempty : plan.outputs ≠ []
  outpointsNodup : (plan.inputs.map InputPlan.outpoint).Nodup
  balance : plan.inputSum = plan.outputSum + built.fee
  fits : plan.inputSum < 2 ^ 64
  fee : built.fee = plan.expectedFee
  inputs : built.transaction.inputs = plan.inputs.map InputPlan.transactionInput
  outputs : built.transaction.outputs.map (fun output => (output.value, output.scriptPublicKey)) =
    plan.outputs.map fun output => (output.value, output.scriptPublicKey)
  entriesLength : built.entries.length = built.transaction.inputs.length
  entry : ∀ (k : Nat) (input : InputPlan), plan.inputs[k]? = some input →
    built.entries[k]? = some input.utxo

theorem Tn10Plan.Built.conserved {plan : Tn10Plan Group} {native : NativeTransaction}
    (h : plan.Built native) : plan.Conserved native := by
  have hfits : plan.inputSum < 2 ^ 64 := Nat.lt_of_le_of_lt h.inputSumFits (by decide)
  constructor
  · exact h.inputsNonempty
  · exact h.outputsNonempty
  · exact h.outpointsNodup
  · rw [h.fee]
    exact h.conserves
  · exact hfits
  · exact h.fee
  · exact h.transaction.inputs
  · exact h.transaction.outputs
  · rw [h.entries, h.transaction.inputs, List.length_map, List.length_map]
  · intro k input hinput
    rw [h.entries, List.getElem?_map, hinput]
    rfl

/-- A plan that only its amounts can refuse: the outpoints are fresh and the network is right. -/
structure Tn10Plan.Admitted (plan : Tn10Plan Group) : Prop where
  network : plan.network = tn10Network
  inputsNonempty : plan.inputs ≠ []
  outputsNonempty : plan.outputs ≠ []
  outpointsNodup : (plan.inputs.map InputPlan.outpoint).Nodup

/-- What is left of `build` once the amounts balance: the calls that look at covenant data. -/
def Tn10Plan.finish (lib : NativeLib Group) (plan : Tn10Plan Group) :
    Except PlanError NativeTransaction := do
  let transaction ← covenantError (lib.populateGenesisCovenants plan.genesisGroups
    ⟨1, plan.inputs.map InputPlan.transactionInput, plan.outputs, plan.lockTime,
      plan.storageMass⟩)
  let _ ← covenantError (lib.covenantsContext ⟨transaction, plan.inputs.map InputPlan.utxo⟩)
  pure ⟨transaction, plan.inputs.map InputPlan.utxo, plan.inputSum - plan.outputSum⟩

/-- On an admitted plan the amounts decide, the overflow before the fee. -/
theorem Tn10Plan.Admitted.build_eq {plan : Tn10Plan Group} (h : plan.Admitted) :
    plan.build lib =
      if 2 ^ 64 ≤ plan.inputSum ∨ 2 ^ 64 ≤ plan.outputSum then .error .overflow
      else if plan.inputSum ≠ plan.outputSum + plan.expectedFee then .error .feeMismatch
      else plan.finish lib := by
  have hmax : u64Max + 1 = 2 ^ 64 := by decide
  have hnonempty : ¬ (plan.inputs = [] ∨ plan.outputs = []) :=
    not_or.mpr ⟨h.inputsNonempty, h.outputsNonempty⟩
  have hinputs : checkedSum (plan.inputs.map fun input => input.utxo.amount) =
      if plan.inputSum ≤ u64Max then .ok plan.inputSum else .error .overflow := checkedSum_eq _
  have houtputs : checkedSum (plan.outputs.map TransactionOutput.value) =
      if plan.outputSum ≤ u64Max then .ok plan.outputSum else .error .overflow := checkedSum_eq _
  rw [Tn10Plan.build, if_neg (not_not.mpr h.network), if_neg hnonempty,
    if_neg (not_not.mpr h.outpointsNodup), hinputs, houtputs]
  by_cases hin : plan.inputSum ≤ u64Max
  · rw [if_pos hin]
    by_cases hout : plan.outputSum ≤ u64Max
    · have hfits : ¬ (2 ^ 64 ≤ plan.inputSum ∨ 2 ^ 64 ≤ plan.outputSum) := by omega
      rw [if_pos hout, if_neg hfits]
      by_cases hfee : plan.inputSum = plan.outputSum + plan.expectedFee
      · have hmatches : ¬ (plan.inputSum < plan.outputSum ∨
            plan.inputSum - plan.outputSum ≠ plan.expectedFee) := by omega
        rw [if_neg (not_not.mpr hfee)]
        exact if_neg hmatches
      · have hdiffers : plan.inputSum < plan.outputSum ∨
            plan.inputSum - plan.outputSum ≠ plan.expectedFee := by omega
        rw [if_pos hfee]
        exact if_pos hdiffers
    · have hover : 2 ^ 64 ≤ plan.inputSum ∨ 2 ^ 64 ≤ plan.outputSum := by omega
      rw [if_neg hout, if_pos hover]
      rfl
  · have hover : 2 ^ 64 ≤ plan.inputSum ∨ 2 ^ 64 ≤ plan.outputSum := by omega
    rw [if_neg hin, if_pos hover]
    rfl

theorem covenantError_bind_ne {α β : Type} {error : PlanError}
    (herror : ∀ reason, error ≠ .covenant reason) {x : Except String α}
    {rest : α → Except PlanError β} (hrest : ∀ a, rest a ≠ .error error) :
    covenantError x >>= rest ≠ .error error := by
  cases x with
  | ok a => exact hrest a
  | error reason =>
    intro h
    exact herror reason (Except.error.inj h).symm

theorem Tn10Plan.finish_ne {plan : Tn10Plan Group} {error : PlanError}
    (herror : ∀ reason, error ≠ .covenant reason) : plan.finish lib ≠ .error error := by
  apply covenantError_bind_ne herror
  intro transaction
  apply covenantError_bind_ne herror
  intro _ h
  cases h

/-- Where populating the genesis covenants changes covenant data only, a plan that builds keeps
its value, and an admitted plan is refused for its amounts exactly when they overflow or differ
from the fee. -/
theorem build_conserves
    (hpopulate : ∀ {groups tx tx'}, lib.populateGenesisCovenants groups tx = .ok tx' →
      SameButCovenants tx tx') (plan : Tn10Plan Group) :
    (∀ native, plan.build lib = .ok native → plan.Conserved native) ∧
    (plan.Admitted →
      (plan.build lib = .error .overflow ↔
        2 ^ 64 ≤ plan.inputSum ∨ 2 ^ 64 ≤ plan.outputSum) ∧
      (¬ (2 ^ 64 ≤ plan.inputSum ∨ 2 ^ 64 ≤ plan.outputSum) →
        (plan.build lib = .error .feeMismatch ↔
          plan.inputSum ≠ plan.outputSum + plan.expectedFee))) := by
  constructor
  · intro native h
    exact (Tn10Plan.built_of_build hpopulate h).conserved
  · intro h
    rw [h.build_eq]
    constructor
    · constructor
      · intro hover
        by_contra hfits
        rw [if_neg hfits] at hover
        split_ifs at hover with hfee
        · cases hover
        · exact Tn10Plan.finish_ne (by simp) hover
      · intro hover
        rw [if_pos hover]
    · intro hfits
      rw [if_neg hfits]
      constructor
      · intro hmismatch hfee
        rw [if_neg (not_not.mpr hfee)] at hmismatch
        exact Tn10Plan.finish_ne (by simp) hmismatch
      · intro hfee
        rw [if_pos hfee]

/-- A payment of 9000 from outputs of the given amounts. -/
def paymentPlan (amounts : List Nat) (expectedFee : Nat) : Tn10Plan Unit where
  network := tn10Network
  inputs := amounts.mapIdx fun index amount =>
    ⟨⟨List.replicate 32 1, index⟩, ⟨amount, ⟨0, [op1]⟩, 0, false, none⟩, 1000, u64Max, []⟩
  outputs := [⟨9000, ⟨0, [op1]⟩, none⟩]
  genesisGroups := []
  lockTime := 0
  storageMass := 640
  expectedFee := expectedFee

theorem build_conserves_paymentPlan :
    (∃ native, (paymentPlan [10000] 1000).build testnetLib = .ok native ∧
      (paymentPlan [10000] 1000).Conserved native) ∧
    (paymentPlan [10000] 999).build testnetLib = .error .feeMismatch ∧
    (paymentPlan [u64Max, 1] 1000).build testnetLib = .error .overflow := by
  have hone : (paymentPlan [10000] 999).Admitted := by
    constructor <;> decide
  have htwo : (paymentPlan [u64Max, 1] 1000).Admitted := by
    constructor <;> decide
  refine ⟨⟨_, rfl, ?_⟩, ?_, ?_⟩
  · exact (build_conserves testnetLib_lawful.populate (paymentPlan [10000] 1000)).1 _ rfl
  · apply (((build_conserves testnetLib_lawful.populate _).2 hone).2 (by decide)).mpr
    decide
  · apply ((build_conserves testnetLib_lawful.populate _).2 htwo).1.mpr
    decide

end KaspaScript
