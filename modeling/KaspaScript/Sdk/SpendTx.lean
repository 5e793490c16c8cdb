import KaspaScript.Sdk.Funding

namespace KaspaScript.SpendTx

open Testnet (sumU64)

/-- Spend argument for transaction construction. -/
inductive SpendArg where
  | bytes (data : Bytes)
  | integer (value : Nat)
  | bool (value : Bool)
  deriving DecidableEq, Repr

/-- UTXO input used by the transaction builder. -/
structure Utxo where
  outpoint : String
  value : Nat
  confirmations : Nat
  scriptPubkey : Bytes
  deriving DecidableEq, Repr

structure TxOutput where
  value : Nat
  scriptPubkey : Bytes
  deriving DecidableEq, Repr

/-- Deterministic preview transaction model. -/
structure Transaction where
  spendFn : String
  inputs : List Utxo
  outputs : List TxOutput
  args : List SpendArg
  deriving DecidableEq, Repr

inductive TxBuildError where
  | insufficientFinality (required actual : Nat)
  | emptySpend
  deriving DecidableEq, Repr

/-- The first UTXO without enough confirmations stops the build. -/
def checkFinality (required : Nat) : List Utxo → Except TxBuildError Unit
  | [] => .ok ()
  | utxo :: rest =>
      if utxo.confirmations < required then
        .error (.insufficientFinality required utxo.confirmations)
      else checkFinality required rest

/-- Builds a preview spend transaction; the total wraps as in a release build. -/
def buildSpendTx (artifact : CompiledArtifact) (spendFn : String) (args : List SpendArg)
    (utxos : List Utxo) : Except TxBuildError Transaction := do
  let totalValue := sumU64 (utxos.map Utxo.value)
  if totalValue = 0 then throw .emptySpend
  match artifact.finalityDepth with
  | some required => checkFinality required utxos
  | none => pure ()
  pure ⟨spendFn, utxos, [⟨totalValue, artifact.bytecode⟩], args⟩

/-- Some UTXO is younger than the artifact asks for. -/
def TooYoung (artifact : CompiledArtifact) (utxos : List Utxo) : Prop :=
  ∃ required, artifact.finalityDepth = some required ∧
    ∃ utxo ∈ utxos, utxo.confirmations < required

/-- What is promised of a build: the value is kept, and every refusal has its reason. -/
structure Conserves (artifact : CompiledArtifact) (spendFn : String) (args : List SpendArg)
    (utxos : List Utxo) : Prop where
  ok : ∀ tx, buildSpendTx artifact spendFn args utxos = .ok tx →
    (tx.outputs.map TxOutput.value).sum = (tx.inputs.map Utxo.value).sum ∧ tx.inputs = utxos ∧
      ¬ TooYoung artifact tx.inputs
  empty : buildSpendTx artifact spendFn args utxos = .error .emptySpend ↔
    ∀ utxo ∈ utxos, utxo.value = 0
  finality : (∃ required actual, buildSpendTx artifact spendFn args utxos =
      .error (.insufficientFinality required actual)) ↔
    (∃ utxo ∈ utxos, utxo.value ≠ 0) ∧ TooYoung artifact utxos

section

variable {artifact : CompiledArtifact} {spendFn : String} {args : List SpendArg}
  {utxos : List Utxo}

theorem checkFinality_eq (required : Nat) (utxos : List Utxo) :
    ((∀ utxo ∈ utxos, required ≤ utxo.confirmations) ∧ checkFinality required utxos = .ok ()) ∨
      ∃ utxo ∈ utxos, utxo.confirmations < required ∧
        checkFinality required utxos =
          .error (.insufficientFinality required utxo.confirmations) := by
  induction utxos with
  | nil => exact .inl ⟨by simp, rfl⟩
  | cons utxo utxos ih =>
    rw [checkFinality]
    by_cases hyoung : utxo.confirmations < required
    · rw [if_pos hyoung]
      exact .inr ⟨utxo, by simp, hyoung, rfl⟩
    · rw [if_neg hyoung]
      rcases ih with hall | hsome
      · refine .inl ⟨?_, hall.2⟩
        exact List.forall_mem_cons.mpr ⟨Nat.le_of_not_lt hyoung, hall.1⟩
      · obtain ⟨other, hother, hless, hcheck⟩ := hsome
        exact .inr ⟨other, List.mem_cons_of_mem _ hother, hless, hcheck⟩

/-- The three ways a build can end. -/
theorem buildSpendTx_cases (artifact : CompiledArtifact) (spendFn : String) (args : List SpendArg)
    (utxos : List Utxo) :
    (sumU64 (utxos.map Utxo.value) = 0 ∧
        buildSpendTx artifact spendFn args utxos = .error .emptySpend) ∨
      (sumU64 (utxos.map Utxo.value) ≠ 0 ∧ TooYoung artifact utxos ∧
        ∃ required actual, buildSpendTx artifact spendFn args utxos =
          .error (.insufficientFinality required actual)) ∨
      (sumU64 (utxos.map Utxo.value) ≠ 0 ∧ ¬ TooYoung artifact utxos ∧
        buildSpendTx artifact spendFn args utxos =
          .ok ⟨spendFn, utxos, [⟨sumU64 (utxos.map Utxo.value), artifact.bytecode⟩], args⟩) := by
  unfold buildSpendTx
  by_cases hzero : sumU64 (utxos.map Utxo.value) = 0
  · rw [if_pos hzero]
    exact .inl ⟨hzero, rfl⟩
  · rw [if_neg hzero]
    refine .inr ?_
    cases hdepth : artifact.finalityDepth with
    | none =>
      refine .inr ⟨hzero, ?_, rfl⟩
      intro hyoung
      obtain ⟨required, hrequired, _⟩ := hyoung
      rw [hdepth] at hrequired
      cases hrequired
    | some required =>
      rcases checkFinality_eq required utxos with hall | hsome
      · obtain ⟨hold, hcheck⟩ := hall
        refine .inr ⟨hzero, ?_, by simp [hcheck]⟩
        intro hyoung
        obtain ⟨required', hrequired, utxo, hutxo, hless⟩ := hyoung
        obtain rfl := Option.some.inj (hdepth.symm.trans hrequired)
        exact absurd (hold utxo hutxo) (Nat.not_le_of_lt hless)
      · obtain ⟨utxo, hutxo, hless, hcheck⟩ := hsome
        refine .inl ⟨hzero, ⟨required, hdepth, utxo, hutxo, hless⟩, required,
          utxo.confirmations, by simp [hcheck]⟩

theorem sum_eq_zero_iff (utxos : List Utxo) :
    (utxos.map Utxo.value).sum = 0 ↔ ∀ utxo ∈ utxos, utxo.value = 0 := by
  induction utxos with
  | nil => simp
  | cons utxo utxos ih =>
    rw [List.map_cons, List.sum_cons, List.forall_mem_cons, ← ih]
    omega

theorem sum_ne_zero_iff (utxos : List Utxo) :
    (utxos.map Utxo.value).sum ≠ 0 ↔ ∃ utxo ∈ utxos, utxo.value ≠ 0 := by
  rw [ne_eq, sum_eq_zero_iff]
  push Not
  rfl

/-- A build keeps its promise exactly while the total fits, or where finality stops it first. -/
theorem buildSpendTx_conserves_iff (artifact : CompiledArtifact) (spendFn : String)
    (args : List SpendArg) (utxos : List Utxo) :
    Conserves artifact spendFn args utxos ↔
      (utxos.map Utxo.value).sum < 2 ^ 64 ∨
        (¬ 2 ^ 64 ∣ (utxos.map Utxo.value).sum ∧ TooYoung artifact utxos) := by
  have hwraps : sumU64 (utxos.map Utxo.value) = (utxos.map Utxo.value).sum % 2 ^ 64 := rfl
  have hdvd : 2 ^ 64 ∣ (utxos.map Utxo.value).sum ↔ sumU64 (utxos.map Utxo.value) = 0 :=
    Nat.dvd_iff_mod_eq_zero
  have hnone := sum_eq_zero_iff utxos
  have hsome := sum_ne_zero_iff utxos
  rcases buildSpendTx_cases artifact spendFn args utxos with hempty | hyoung | hbuilt
  · obtain ⟨hzero, hbuild⟩ := hempty
    constructor
    · intro h
      have hsum := hnone.mpr (h.empty.mp hbuild)
      omega
    · intro h
      have hsum : (utxos.map Utxo.value).sum = 0 := by
        rcases h with hfits | hlarge
        · omega
        · exact absurd (hdvd.mpr hzero) hlarge.1
      refine ⟨by simp [hbuild], iff_of_true hbuild (hnone.mp hsum), ?_⟩
      rw [← hsome]
      simp [hbuild, hsum]
  · obtain ⟨hnonzero, hyoung, hbuild⟩ := hyoung
    refine iff_of_true ?_ (.inr ⟨fun h => hnonzero (hdvd.mp h), hyoung⟩)
    have hsum : (utxos.map Utxo.value).sum ≠ 0 := by
      intro hsum
      rw [hwraps, hsum] at hnonzero
      exact hnonzero rfl
    have hfinality := hbuild
    obtain ⟨required, actual, hbuild⟩ := hbuild
    exact ⟨by simp [hbuild], by simp [hbuild, ← hnone, hsum],
      iff_of_true hfinality ⟨hsome.mp hsum, hyoung⟩⟩
  · obtain ⟨hnonzero, hold, hbuild⟩ := hbuilt
    constructor
    · intro h
      have hsum := (h.ok _ hbuild).1
      simp only [List.map_cons, List.map_nil, List.sum_cons, List.sum_nil, Nat.add_zero] at hsum
      refine .inl ?_
      omega
    · intro h
      have hfits : (utxos.map Utxo.value).sum < 2 ^ 64 := by
        rcases h with hfits | hlarge
        · exact hfits
        · exact absurd hlarge.2 hold
      have hsum : (utxos.map Utxo.value).sum ≠ 0 := by omega
      refine ⟨?_, by simp [hbuild, ← hnone, hsum], by simp [hbuild, hold]⟩
      intro tx htx
      obtain rfl := Except.ok.inj (hbuild.symm.trans htx)
      refine ⟨?_, rfl, hold⟩
      simp only [List.map_cons, List.map_nil, List.sum_cons, List.sum_nil, Nat.add_zero]
      omega

end

/-- An artifact that asks for no confirmations. -/
def bareArtifact : CompiledArtifact :=
  ⟨[1], [], "test", "kaspa-txscript", "verified-tn12", none, [], [], ⟨[]⟩, []⟩

/-- Two halves of the `u64` range, and one sompi more. -/
def halfRangeUtxos : List Utxo :=
  [⟨"a:0", 2 ^ 63, 0, []⟩, ⟨"a:1", 2 ^ 63, 0, []⟩, ⟨"a:2", 1, 0, []⟩]

theorem buildSpendTx_loses_halfRange :
    buildSpendTx bareArtifact "withdraw" [] halfRangeUtxos =
        .ok ⟨"withdraw", halfRangeUtxos, [⟨1, [1]⟩], []⟩ ∧
      ¬ Conserves bareArtifact "withdraw" [] halfRangeUtxos := by
  have hbuild : buildSpendTx bareArtifact "withdraw" [] halfRangeUtxos =
      .ok ⟨"withdraw", halfRangeUtxos, [⟨1, [1]⟩], []⟩ := rfl
  refine ⟨hbuild, ?_⟩
  intro h
  have hsum := (h.ok _ hbuild).1
  simp [halfRangeUtxos] at hsum

end KaspaScript.SpendTx
