import KaspaScript.Codegen.Compositional
import KaspaScript.Meaning.Preservation
import KaspaScript.Sdk.Run

namespace KaspaScript

open Library (bind_eq_ok pure_eq_ok run_cons)
open Library.ScriptNum (encode)
open Testnet (BuilderLib TestWallet LockedContractOutput FundingUtxo BuiltTransaction
  buildSpendTransaction spendInputs flatLib)

/-- A lock check of a script: its bound is a literal of the instruction, or is taken from the
stack, where the instruction before it may have pushed an integer. -/
inductive LockCheck where
  | literal (bound : Nat)
  | fromStack (pushed : Option Nat)
  deriving DecidableEq, Repr

def LockCheck.bound : LockCheck → Option Nat
  | .literal bound => some bound
  | .fromStack pushed => pushed

def pushedInteger : InstructionKind → Option Nat
  | .push (.integer value) => some value
  | _ => none

/-- The lock check that an instruction is, given the one before it. -/
def lockCheck (previous : Option InstructionKind) : InstructionKind → Option LockCheck
  | .checkLockHeight bound | .checkLockTime bound => some (.literal bound)
  | .checkLockHeightFromStack | .checkLockTimeFromStack =>
      some (.fromStack (previous.bind pushedInteger))
  | _ => none

/-- The lock checks of a script in order, given the instruction in front of it. -/
def lockChecks : Option InstructionKind → List InstructionKind → List LockCheck
  | _, [] => []
  | previous, kind :: rest => (lockCheck previous kind).toList ++ lockChecks (some kind) rest

/-- The bounds that are known of some lock checks. -/
def lockBounds (checks : List LockCheck) : List Nat := checks.filterMap LockCheck.bound

/-- What the binder does with the code of the spend, before it is compiled. -/
def boundInstructions (lib : ScriptLib) (artifact : CompiledArtifact)
    (contractName spendName : String) (bindings : Bindings) :
    Except TestnetError (List Instruction) := do
  let contract ← findContract artifact contractName
  let spend ← findSpend contract spendName
  instantiateFrom lib contract spend spendName bindings none spend.instructions

/-- What the builder makes of an instantiation: its lock time, and in front the input of the
locked output with the builder's sequence. -/
structure Assembled (lib : BuilderLib) (instantiation : ContractInstantiation)
    (tx : Testnet.Transaction) : Prop where
  lockTime : tx.lockTime = instantiation.lockTime
  sequence : (tx.inputs.head?).map Testnet.TransactionInput.sequence =
    some (if instantiation.usesLockTime then 0 else lib.maxInputSequence)

/-- The script engine runs the first input of a transaction. -/
structure RunsFirst (env : ScriptEnv) (tx : Testnet.Transaction) : Prop where
  inputIndex : env.inputIndex = 0
  lockTime : env.populated.tx.lockTime = tx.lockTime
  sequence : (env.populated.tx.inputs.head?).map TransactionInput.sequence =
    (tx.inputs.head?).map Testnet.TransactionInput.sequence

/-- Every lock check of a bound script is accounted for. -/
structure LocksMet (lib : BuilderLib) (instantiation : ContractInstantiation)
    (code : List Instruction) : Prop where
  flagged : instantiation.usesLockTime = true ↔
    ∃ instruction ∈ code, (lockCheck none instruction.kind).isSome
  covered : ∀ bound ∈ lockBounds (lockChecks none (kinds code)), bound ≤ instantiation.lockTime
  passed : ∀ tx, Assembled lib instantiation tx → ∀ env, RunsFirst env tx →
    ∀ bound ∈ lockBounds (lockChecks none (kinds code)), ∀ stack,
      runOpcodes env [.push (encode bound), .checkLockTimeVerify] stack = some stack

/-- The first check's literal covers the bounds of the others and is of their kind; a check that
takes its bound from the stack covers zeros only. -/
def FirstCovers : List LockCheck → Prop
  | [] => True
  | .literal value :: rest => ∀ bound ∈ lockBounds rest,
      bound ≤ value ∧ (bound < lockTimeThreshold ↔ value < lockTimeThreshold)
  | .fromStack pushed :: rest => ∀ bound ∈ lockBounds (.fromStack pushed :: rest), bound = 0

instance : DecidablePred FirstCovers
  | [] => inferInstanceAs (Decidable True)
  | .literal value :: rest => inferInstanceAs (Decidable (∀ bound ∈ lockBounds rest,
      bound ≤ value ∧ (bound < lockTimeThreshold ↔ value < lockTimeThreshold)))
  | .fromStack pushed :: rest => inferInstanceAs (Decidable
      (∀ bound ∈ lockBounds (.fromStack pushed :: rest), bound = 0))

section

variable {previous : Option InstructionKind} {code : List Instruction}

theorem isSome_lockCheck (kind : InstructionKind) :
    (lockCheck previous kind).isSome = (lockCheck none kind).isSome := by
  cases kind <;> rfl

theorem lockChecks_cons (instruction : Instruction) (rest : List Instruction) :
    lockChecks previous (kinds (instruction :: rest)) =
      (lockCheck previous instruction.kind).toList ++
        lockChecks (some instruction.kind) (kinds rest) := rfl

/-- The requirement is read off the first lock check alone. -/
theorem lockTimeRequirement_eq (code : List Instruction) (previous : Option InstructionKind) :
    lockTimeRequirement code =
      match lockChecks previous (kinds code) with
      | [] => (false, 0)
      | .literal value :: _ => (true, value)
      | .fromStack _ :: _ => (true, 0) := by
  induction code generalizing previous with
  | nil => rfl
  | cons instruction rest ih =>
    rw [lockChecks_cons, lockTimeRequirement]
    cases hkind : instruction.kind with
    | checkLockHeight | checkLockTime | checkLockHeightFromStack | checkLockTimeFromStack => rfl
    | _ => exact ih _

theorem lockChecks_ne_nil : lockChecks previous (kinds code) ≠ [] ↔
    ∃ instruction ∈ code, (lockCheck none instruction.kind).isSome := by
  induction code generalizing previous with
  | nil => simp [lockChecks, kinds]
  | cons instruction rest ih =>
    rw [lockChecks_cons, List.exists_mem_cons_iff, ← @ih (some instruction.kind),
      ← @isSome_lockCheck previous]
    cases lockCheck previous instruction.kind <;> simp

/-- A known bound stands in the code: as a literal, or as an integer that is pushed. -/
theorem mem_lockBounds {bound : Nat}
    (h : bound ∈ lockBounds (lockChecks previous (kinds code))) :
    previous = some (.push (.integer bound)) ∨ ∃ instruction ∈ code,
      instruction.kind = .push (.integer bound) ∨ instruction.kind = .checkLockHeight bound ∨
        instruction.kind = .checkLockTime bound := by
  induction code generalizing previous with
  | nil => cases h
  | cons instruction rest ih =>
    rw [lockChecks_cons, lockBounds, List.filterMap_append, List.mem_append] at h
    rcases h with hhead | hrest
    · obtain ⟨check, hcheck, hbound⟩ := List.mem_filterMap.mp hhead
      rw [Option.mem_toList] at hcheck
      cases hkind : instruction.kind with
      | checkLockHeight value | checkLockTime value =>
        rw [hkind] at hcheck
        cases hcheck
        cases hbound
        exact Or.inr ⟨instruction, List.mem_cons_self, by simp [hkind]⟩
      | checkLockHeightFromStack | checkLockTimeFromStack =>
        rw [hkind] at hcheck
        cases hcheck
        left
        obtain ⟨kind, hprevious, hpushed⟩ := Option.bind_eq_some_iff.mp hbound
        rw [hprevious]
        unfold pushedInteger at hpushed
        split at hpushed <;> simp_all
      | _ =>
        rw [hkind] at hcheck
        cases hcheck
    · rcases ih hrest with hprevious | ⟨instruction', hmem, hkind⟩
      · exact Or.inr ⟨instruction, List.mem_cons_self, Or.inl (Option.some.inj hprevious)⟩
      · exact Or.inr ⟨instruction', List.mem_cons_of_mem _ hmem, hkind⟩

/-- Bounds that compile are numbers of the script engine. -/
theorem bound_fits {bytecode : Bytes} (hcode : compileInstructionSequence code = .ok bytecode)
    {bound : Nat} (h : bound ∈ lockBounds (lockChecks none (kinds code))) : bound ≤ i64Max := by
  have heach := compileInstructionSequence_each.mp ⟨bytecode, hcode⟩
  rcases mem_lockBounds h with hprevious | ⟨instruction, hmem, hkind⟩
  · cases hprevious
  · have hencodes := heach instruction hmem
    rcases hkind with hkind | hkind | hkind <;> simp only [encodeInstruction, hkind] at hencodes
    · exact encodeU64_isOk.mp hencodes
    · exact encodeU64_then_isOk.mp hencodes
    · exact encodeU64_then_isOk.mp hencodes

theorem passes_iff {env : ScriptEnv} {bound : Nat} {stack : Stack} (h : bound ≤ i64Max) :
    runOpcodes env [.push (encode bound), .checkLockTimeVerify] stack = some stack ↔
      lockReached env bound = true := by
  have hfits : NumFits bound := by
    unfold i64Max at h
    unfold NumFits
    omega
  have hreading : lockReading bound = bound := if_pos (Int.natCast_nonneg bound)
  have hrun : runOpcodes env [.push (encode bound), .checkLockTimeVerify] stack =
      if lockReached env bound then some stack else none := by
    rw [runOpcodes, run_cons, execOpcode, Option.bind_some, Library.run_singleton, execOpcode,
      lockSatisfied_encode env hfits, hreading]
  rw [hrun]
  split_ifs with hreached <;> simp [hreached]

/-- An input with a lock is not final, so only the lock time decides. -/
theorem lockReached_iff_covered {lib : BuilderLib} {instantiation : ContractInstantiation}
    {tx : Testnet.Transaction} {env : ScriptEnv} {bound : Nat}
    (huses : instantiation.usesLockTime = true) (htx : Assembled lib instantiation tx)
    (henv : RunsFirst env tx) :
    lockReached env bound = true ↔ bound ≤ instantiation.lockTime ∧
      (bound < lockTimeThreshold ↔ instantiation.lockTime < lockTimeThreshold) := by
  have hlock : env.populated.tx.lockTime = instantiation.lockTime :=
    henv.lockTime.trans htx.lockTime
  have hsequence : (env.populated.tx.inputs[env.inputIndex]?).any
      (·.sequence ≠ maxTxInSequenceNum) = true := by
    have hzero := henv.sequence.trans htx.sequence
    rw [huses, if_pos rfl, Option.map_eq_some_iff] at hzero
    obtain ⟨input, hinput, hseq⟩ := hzero
    rw [henv.inputIndex, ← List.head?_eq_getElem?, hinput]
    simp [hseq, maxTxInSequenceNum]
  unfold lockReached
  rw [hlock, hsequence, Bool.and_true, Bool.and_eq_true, beq_iff_eq, decide_eq_decide,
    decide_eq_true_eq, Nat.cast_le, Nat.cast_lt]
  tauto

/-- What the binder has compiled, and what it returns of its locks. -/
theorem bound_of_instantiateContract {lib : ScriptLib} {artifact : CompiledArtifact}
    {contractName spendName : String} {bindings : Bindings} {target : TestnetTarget}
    {instantiation : ContractInstantiation}
    (h : instantiateContract lib artifact contractName spendName bindings target =
      .ok instantiation) :
    ∃ code bytecode, boundInstructions lib artifact contractName spendName bindings = .ok code ∧
      compileInstructionSequence code = .ok bytecode ∧
      lockTimeRequirement code = (instantiation.usesLockTime, instantiation.lockTime) := by
  obtain ⟨contract, spend, code, _, _, hcontract, _, hspend, _, hcode, hscript, _, _, _, _,
    hlock⟩ := instantiateContract_eq_ok h
  unfold compileSpendScript at hscript
  split_ifs at hscript
  obtain ⟨bytecode, hbytecode, _⟩ := bind_eq_ok.mp hscript
  refine ⟨code, bytecode, ?_, hbytecode, hlock⟩
  unfold boundInstructions
  rw [hcontract, Library.ok_bind, hspend, Library.ok_bind]
  exact hcode

/-- The builder's transaction carries the lock time and the sequence of its instantiation. -/
theorem assembled_of_buildSpendTransaction {lib : BuilderLib} {wallet : TestWallet}
    {target : TestnetTarget} {instantiation : ContractInstantiation}
    {locked : LockedContractOutput} {funding : List FundingUtxo} {built : BuiltTransaction}
    (h : buildSpendTransaction lib wallet target instantiation locked funding = .ok built) :
    Assembled lib instantiation built.tx := by
  obtain ⟨feeFunding, _, hlock, hinputs⟩ := Testnet.unsigned_of_buildSpendTransaction h
  refine ⟨hlock, ?_⟩
  have hsequences := congrArg (fun inputs => (List.map Prod.snd inputs).head?) hinputs
  simp only [List.map_map, List.head?_map] at hsequences
  exact hsequences

/-- A transaction with that lock time, whose only input is not final. -/
def lockedTransaction (lockTime : Nat) : Testnet.Transaction :=
  ⟨0, [⟨⟨[], 0⟩, [], 0, 0⟩], [], lockTime, 0⟩

def lockedEnv (lockTime : Nat) : ScriptEnv :=
  ⟨⟨⟨0, [⟨⟨[], 0⟩, [], 0, 0⟩], [], lockTime, 0⟩, []⟩, 0, fun _ _ => true, id, id⟩

theorem runsFirst_lockedEnv (lockTime : Nat) :
    RunsFirst (lockedEnv lockTime) (lockedTransaction lockTime) := ⟨rfl, rfl, rfl⟩

/-- Where some lock is checked, the bounds are met when the lock time covers them all and is of
their kind. -/
theorem met_iff {lib : BuilderLib} {instantiation : ContractInstantiation}
    (huses : instantiation.usesLockTime = true)
    (hfits : ∀ bound ∈ lockBounds (lockChecks none (kinds code)), bound ≤ i64Max)
    (hchecks : lockChecks none (kinds code) ≠ []) :
    LocksMet lib instantiation code ↔ ∀ bound ∈ lockBounds (lockChecks none (kinds code)),
      bound ≤ instantiation.lockTime ∧
        (bound < lockTimeThreshold ↔ instantiation.lockTime < lockTimeThreshold) := by
  constructor
  · intro h bound hbound
    have htx : Assembled lib instantiation (lockedTransaction instantiation.lockTime) :=
      ⟨rfl, by rw [huses]; rfl⟩
    have hpassed := h.passed _ htx _ (runsFirst_lockedEnv _) bound hbound []
    have hreached := (passes_iff (hfits bound hbound)).mp hpassed
    exact (lockReached_iff_covered huses htx (runsFirst_lockedEnv _)).mp hreached
  · intro h
    refine ⟨⟨fun _ => lockChecks_ne_nil.mp hchecks, fun _ => huses⟩, ?_, ?_⟩
    · intro bound hbound
      exact (h bound hbound).1
    · intro tx htx env henv bound hbound stack
      apply (passes_iff (hfits bound hbound)).mpr
      exact (lockReached_iff_covered huses htx henv).mpr (h bound hbound)

theorem locksMet_iff_firstCovers {lib : BuilderLib} {instantiation : ContractInstantiation}
    (hlock : lockTimeRequirement code = (instantiation.usesLockTime, instantiation.lockTime))
    (hfits : ∀ bound ∈ lockBounds (lockChecks none (kinds code)), bound ≤ i64Max) :
    LocksMet lib instantiation code ↔ FirstCovers (lockChecks none (kinds code)) := by
  rw [lockTimeRequirement_eq code none] at hlock
  cases hchecks : lockChecks none (kinds code) with
  | nil =>
    rw [hchecks] at hlock
    obtain ⟨huses, _⟩ := Prod.mk.inj hlock
    have hnone : ¬ ∃ instruction ∈ code, (lockCheck none instruction.kind).isSome := by
      rw [← @lockChecks_ne_nil none, hchecks]
      simp
    refine iff_of_true ⟨?_, ?_, ?_⟩ trivial
    · simp [← huses, hnone]
    · simp [hchecks, lockBounds]
    · simp [hchecks, lockBounds]
  | cons check rest =>
    have hsome : lockChecks none (kinds code) ≠ [] := by simp [hchecks]
    rw [hchecks] at hlock
    cases check with
    | literal value =>
      obtain ⟨huses, htime⟩ := Prod.mk.inj hlock
      rw [met_iff huses.symm hfits hsome, hchecks, ← htime, FirstCovers, lockBounds,
        List.filterMap_cons, LockCheck.bound]
      simp [lockBounds]
    | fromStack pushed =>
      obtain ⟨huses, htime⟩ := Prod.mk.inj hlock
      rw [met_iff huses.symm hfits hsome, hchecks, ← htime, FirstCovers]
      constructor
      · intro h bound hbound
        exact Nat.le_zero.mp (h bound hbound).1
      · intro h bound hbound
        rw [h bound hbound]
        exact ⟨Nat.le_refl 0, Iff.rfl⟩

end

/-- A spend's locks are met by its instantiation exactly when the first of them covers the
others. -/
theorem locksMet_iff (lib : BuilderLib) (artifact : CompiledArtifact)
    (contractName spendName : String) (bindings : Bindings) (target : TestnetTarget)
    (instantiation : ContractInstantiation)
    (h : instantiateContract lib.toScriptLib artifact contractName spendName bindings target =
      .ok instantiation) :
    (∀ wallet network locked funding built,
      buildSpendTransaction lib wallet network instantiation locked funding = .ok built →
        Assembled lib instantiation built.tx) ∧
    ∃ code, boundInstructions lib.toScriptLib artifact contractName spendName bindings =
        .ok code ∧
      (LocksMet lib instantiation code ↔ FirstCovers (lockChecks none (kinds code))) := by
  constructor
  · intro wallet network locked funding built hbuilt
    exact assembled_of_buildSpendTransaction hbuilt
  · obtain ⟨code, bytecode, hcode, hbytecode, hlock⟩ := bound_of_instantiateContract h
    refine ⟨code, hcode, locksMet_iff_firstCovers hlock ?_⟩
    intro bound hbound
    exact bound_fits hbytecode hbound

/-- The artifact of a contract with one parameter, for the code of its only spend. -/
def lockArtifact (code : List InstructionKind) : CompiledArtifact where
  bytecode := []
  sourceHash := []
  compilerVersion := ""
  backend := ""
  target := ""
  finalityDepth := none
  kipRequirements := []
  warnings := []
  application := ⟨[]⟩
  contracts := [⟨"Vault", [⟨"unlock", .blockHeight⟩], none,
    [⟨"open", [], code.map (Instruction.mk ⟨0, 0⟩)⟩]⟩]

/-- `require block.height >= 100; require block.height >= 40;` waits for height 100. -/
theorem locksMet_descending : ∃ instantiation code,
    instantiateContract flatLib.toScriptLib
      (lockArtifact [.checkLockHeight 100, .verify, .checkLockHeight 40, .verify]) "Vault" "open"
      [("unlock", .integer 500)] .tn10 = .ok instantiation ∧
    boundInstructions flatLib.toScriptLib
      (lockArtifact [.checkLockHeight 100, .verify, .checkLockHeight 40, .verify]) "Vault" "open"
      [("unlock", .integer 500)] = .ok code ∧
    LocksMet flatLib instantiation code := by
  obtain ⟨_, code, hcode, hiff⟩ := locksMet_iff flatLib
    (lockArtifact [.checkLockHeight 100, .verify, .checkLockHeight 40, .verify]) "Vault" "open"
    [("unlock", .integer 500)] .tn10 _ rfl
  refine ⟨_, code, rfl, hcode, hiff.mpr ?_⟩
  obtain rfl := Except.ok.inj hcode
  decide

/-- `require block.height >= unlock;` with height 500 bound is spent with lock time 0. -/
theorem locks_unmet_parameter : ∃ instantiation code,
    instantiateContract flatLib.toScriptLib
      (lockArtifact [.push (.symbol "unlock"), .checkLockHeightFromStack, .verify]) "Vault" "open"
      [("unlock", .integer 500)] .tn10 = .ok instantiation ∧
    boundInstructions flatLib.toScriptLib
      (lockArtifact [.push (.symbol "unlock"), .checkLockHeightFromStack, .verify]) "Vault" "open"
      [("unlock", .integer 500)] = .ok code ∧
    lockBounds (lockChecks none (kinds code)) = [500] ∧ instantiation.usesLockTime = true ∧
    instantiation.lockTime = 0 ∧ ¬ LocksMet flatLib instantiation code := by
  refine ⟨_, _, rfl, rfl, rfl, rfl, rfl, ?_⟩
  intro hmet
  have hcovered := hmet.covered 500 (List.mem_singleton_self 500)
  exact absurd hcovered (by decide)

end KaspaScript
