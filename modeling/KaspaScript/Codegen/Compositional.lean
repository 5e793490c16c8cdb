import KaspaScript.Codegen.Compile
import KaspaScript.Codegen.Declared
import KaspaScript.Codegen.Gate
import Mathlib.Data.List.Flatten

namespace KaspaScript

open Library (bind_eq_ok pure_eq_ok joinAll joinAll_isOk mapM_isOk Fresh fresh_cons fresh_nil)

/-- The passes after the parser: analysis, lowering and code generation. -/
def compileProgram (sha256 : Bytes → Bytes) (source file version : String) (target : Target)
    (program : Program) : Except CodegenError CompiledArtifact :=
  match analyzeProgram program source file with
  | .error failure => .error (.ir (.semantic failure))
  | .ok analysis =>
      match lowerProgram analysis.program analysis.kipRequirements file with
      | .error error => .error (.ir error)
      | .ok ir => compileToccata sha256 source ir version target

theorem compileFileForTarget_of_parse {sha256 : Bytes → Bytes} {source file : String}
    {target : Target} {program : Program} (h : parseFile source file = .ok program) :
    compileFileForTarget sha256 source file target =
      compileProgram sha256 source file cargoPkgVersion target program := by
  unfold compileFileForTarget lowerFile compileProgram
  simp only [h]
  cases analyzeProgram program source file with
  | error failure => rfl
  | ok analysis => rfl

/-- The KIPs of one contract, before they are made a set. -/
def Contract.kips (contract : Contract) : List Nat :=
  contract.spends.flatMap fun spend => spend.body.flatMap fun stmt => collectExprKips stmt.expr

theorem collectKipRequirements_eq (program : Program) :
    collectKipRequirements program = sortedSet (program.contracts.flatMap Contract.kips) := rfl

/-- Which warnings a set of requirements leaves. -/
theorem mem_gatedWarnings {kips : List Nat} {id : String} :
    id ∈ (gatedWarnings (kips.filterMap recordForKip)).map GroundingWarning.id ↔
      ∃ kip ∈ kips, ∃ record, recordForKip kip = some record ∧ record.status = .gated ∧
        record.id = id := by
  simp only [gatedWarnings, List.map_map, List.mem_map, List.mem_eraseDups, List.mem_filter,
    List.mem_filterMap, decide_eq_true_eq, Function.comp_apply]
  constructor
  · intro h
    obtain ⟨record, ⟨⟨kip, hkip, hrecord⟩, hgated⟩, hid⟩ := h
    exact ⟨kip, hkip, record, hrecord, hgated, hid⟩
  · intro h
    obtain ⟨kip, hkip, record, hrecord, hgated, hid⟩ := h
    exact ⟨record, ⟨⟨kip, hkip, hrecord⟩, hgated⟩, hid⟩

theorem nodup_gatedWarnings (kips : List Nat) :
    ((gatedWarnings (kips.filterMap recordForKip)).map GroundingWarning.id).Nodup := by
  unfold gatedWarnings
  rw [List.map_map]
  apply List.Nodup.map_on _ (Library.nodup_eraseDups _)
  intro a ha b hb hid
  have htable : ∀ r ∈ ((kips.filterMap recordForKip).filter
      fun record => record.status = .gated).eraseDups, r ∈ kipRecords := by
    intro r hr
    obtain ⟨kip, _, hkip⟩ := List.mem_filterMap.mp (List.mem_filter.mp (List.mem_eraseDups.mp hr)).1
    exact mem_kipRecords hkip
  exact kipRecords_id (htable a ha) (htable b hb) hid

section

variable {sha256 : Bytes → Bytes} {source file version : String} {target : Target}

/-- The artifact of an IR program whose bytes are known. -/
def assembledArtifact (sha256 : Bytes → Bytes) (source version : String) (target : Target)
    (ir : IrProgram) (bytecode : Bytes) : CompiledArtifact where
  bytecode := bytecode
  sourceHash := sha256 (utf8Bytes source)
  compilerVersion := version
  backend := "kaspa-txscript"
  target := target.asStr
  finalityDepth := (ir.contracts.filterMap IrContract.finalityDepth).max?
  kipRequirements := ir.kipRequirements
  warnings := gatedWarnings (ir.kipRequirements.filterMap recordForKip)
  application := ir.application
  contracts := ir.contracts.map artifactContract

/-- What the target asks of an IR program, and the bytes it then has. -/
structure IrProgram.CompilesTo (target : Target) (ir : IrProgram) (bytecode : Bytes) : Prop where
  kips : ∀ kip ∈ ir.kipRequirements, ∀ record, recordForKip kip = some record →
    record.Passes target
  grounded : ∀ instruction ∈ ir.instructions, isUnsupported instruction.kind = false
  encoded : compileInstructionSequence ir.instructions = .ok bytecode

theorem compileToccata_iff {ir : IrProgram} {artifact : CompiledArtifact} :
    compileToccata sha256 source ir version target = .ok artifact ↔
      ∃ bytecode, ir.CompilesTo target bytecode ∧
        artifact = assembledArtifact sha256 source version target ir bytecode := by
  have hassembled : ∀ artifact, compileToccata sha256 source ir version target = .ok artifact →
      artifact = assembledArtifact sha256 source version target ir artifact.bytecode := by
    intro artifact h
    obtain ⟨_, _, _, hwarnings⟩ := compileToccata_eq_ok h
    obtain ⟨warnings, _, h⟩ := bind_eq_ok.mp h
    obtain ⟨⟨bytecode, all⟩, _, h⟩ := bind_eq_ok.mp h
    rw [pure_eq_ok] at h
    subst h
    rw [assembledArtifact, ← hwarnings]
  constructor
  · intro h
    obtain ⟨hkips, hground, hcode, _⟩ := compileToccata_eq_ok h
    exact ⟨_, ⟨kips_pass_iff.mp hkips, hground, hcode⟩, hassembled artifact h⟩
  · intro h
    obtain ⟨bytecode, hcompiles, hartifact⟩ := h
    obtain ⟨other, hother⟩ := @compileToccata_isOk sha256 source version ir target
      (kips_pass_iff.mpr hcompiles.kips) hcompiles.grounded ⟨_, hcompiles.encoded⟩
    obtain ⟨_, _, hcode, _⟩ := compileToccata_eq_ok hother
    have hbytes : other.bytecode = bytecode := Except.ok.inj (hcode.symm.trans hcompiles.encoded)
    rw [hother, hassembled other hother, hartifact, hbytes]

/-- Analysis accepts a program of distinct contracts that it accepts one by one. -/
theorem analyzeProgram_isOk {program : Program} :
    (∃ analysis, analyzeProgram program source file = .ok analysis) ↔
      (program.contracts.map fun contract => contract.name.name).Nodup ∧
        ∀ contract ∈ program.contracts,
          (Checker.checkContract ⟨source, file, []⟩ contract).Clean := by
  have hclean := @Checker.clean_checkContracts ⟨source, file, []⟩ program.contracts []
  have hfresh : Fresh [] (program.contracts.map fun contract => contract.name.name) ↔
      (program.contracts.map fun contract => contract.name.name).Nodup := by simp [Fresh]
  rw [← hfresh, ← hclean, Library.Collect.Clean, ← List.isEmpty_iff]
  unfold analyzeProgram Checker.checkProgram
  by_cases hempty :
      (Checker.checkContracts ⟨source, file, []⟩ program.contracts []).errors.isEmpty = true
  · simp only [hempty, if_true, Except.ok.injEq, exists_eq']
  · simp only [hempty, Bool.false_eq_true, if_false, reduceCtorEq, exists_false]

theorem compileProgram_iff {program : Program} {artifact : CompiledArtifact} :
    compileProgram sha256 source file version target program = .ok artifact ↔
      (∃ analysis, analyzeProgram program source file = .ok analysis) ∧
        ∃ contracts bytecode, program.contracts.mapM (lowerContract file) = .ok contracts ∧
          let ir := ⟨contracts, collectKipRequirements program, buildApplicationModel program⟩
          IrProgram.CompilesTo target ir bytecode ∧
            artifact = assembledArtifact sha256 source version target ir bytecode := by
  unfold compileProgram
  cases hanalyze : analyzeProgram program source file with
  | error failure => simp
  | ok analysis =>
    obtain ⟨_, hprogram, hkips⟩ := accepted_of_analyzeProgram hanalyze
    simp only [hprogram, hkips]
    cases hlower : lowerProgram program (collectKipRequirements program) file with
    | error error =>
      have hnone : ¬ ∃ contracts, program.contracts.mapM (lowerContract file) = .ok contracts := by
        intro h
        obtain ⟨contracts, hcontracts⟩ := h
        rw [lowerProgram, hcontracts] at hlower
        cases hlower
      constructor
      · intro h
        cases h
      · intro h
        obtain ⟨_, contracts, _, hcontracts, _⟩ := h
        exact absurd ⟨contracts, hcontracts⟩ hnone
    | ok ir =>
      obtain ⟨hkips, happlication, hcontracts⟩ := lowerProgram_eq_ok hlower
      have hir : ir = ⟨ir.contracts, collectKipRequirements program,
          buildApplicationModel program⟩ := by
        rw [← hkips, ← happlication]
      simp only [compileToccata_iff, hcontracts, Except.ok.injEq]
      constructor
      · intro h
        obtain ⟨bytecode, hcompiles, hartifact⟩ := h
        exact ⟨⟨analysis, rfl⟩, ir.contracts, bytecode, rfl, hir ▸ hcompiles, hir ▸ hartifact⟩
      · intro h
        obtain ⟨_, contracts, bytecode, hsame, hcompiles, hartifact⟩ := h
        subst hsame
        exact ⟨bytecode, hir ▸ hcompiles, hir ▸ hartifact⟩

/-- A program's instructions are those of its contracts, one after the other. -/
theorem instructions_eq (ir : IrProgram) :
    ir.instructions = ir.contracts.flatMap fun contract => spendInstructions contract.spends := by
  simp only [IrProgram.instructions, spendInstructions, List.flatMap_assoc]

/-- A one-contract program compiles on the terms of its contract. -/
structure ContractCompiles (source file : String) (target : Target) (contract : Contract)
    (lowered : IrContract) (bytecode : Bytes) : Prop where
  clean : (Checker.checkContract ⟨source, file, []⟩ contract).Clean
  lowers : lowerContract file contract = .ok lowered
  kips : ∀ kip ∈ contract.kips, ∀ record, recordForKip kip = some record → record.Passes target
  grounded : ∀ instruction ∈ spendInstructions lowered.spends,
    isUnsupported instruction.kind = false
  encoded : compileInstructionSequence (spendInstructions lowered.spends) = .ok bytecode

theorem compileProgram_single {contract : Contract} {artifact : CompiledArtifact} :
    compileProgram sha256 source file version target ⟨[contract]⟩ = .ok artifact ↔
      ∃ lowered bytecode, ContractCompiles source file target contract lowered bytecode ∧
        artifact = assembledArtifact sha256 source version target
          ⟨[lowered], sortedSet contract.kips, buildApplicationModel ⟨[contract]⟩⟩ bytecode := by
  have hkips : collectKipRequirements ⟨[contract]⟩ = sortedSet contract.kips := by
    rw [collectKipRequirements_eq, List.flatMap_singleton]
  have hinstructions (lowered : IrContract) (kips : List Nat) (model : ApplicationModel) :
      IrProgram.instructions ⟨[lowered], kips, model⟩ = spendInstructions lowered.spends := by
    rw [instructions_eq, List.flatMap_singleton]
  rw [compileProgram_iff, analyzeProgram_isOk, hkips]
  constructor
  · intro h
    obtain ⟨⟨_, hclean⟩, contracts, bytecode, hlower, hcompiles, hartifact⟩ := h
    obtain ⟨lowered, rest, hlowered, hrest, rfl⟩ := Library.mapM_cons_eq_ok.mp hlower
    rw [List.mapM_nil, pure_eq_ok] at hrest
    subst hrest
    refine ⟨lowered, bytecode, ⟨hclean contract (by simp), hlowered, ?_, ?_, ?_⟩, hartifact⟩
    · intro kip hkip
      exact hcompiles.kips kip (mem_sortedSet.mpr hkip)
    · rw [← hinstructions]
      exact hcompiles.grounded
    · rw [← hinstructions]
      exact hcompiles.encoded
  · intro h
    obtain ⟨lowered, bytecode, hcontract, hartifact⟩ := h
    refine ⟨⟨by simp, by simpa using hcontract.clean⟩, [lowered], bytecode, ?_, ?_, hartifact⟩
    · apply Library.mapM_cons_eq_ok.mpr
      exact ⟨lowered, [], hcontract.lowers, rfl, rfl⟩
    · constructor
      · intro kip hkip
        exact hcontract.kips kip (mem_sortedSet.mp hkip)
      · rw [hinstructions]
        exact hcontract.grounded
      · rw [hinstructions]
        exact hcontract.encoded

/-- What the artifacts of the single contracts add up to. -/
structure CompiledArtifact.Composes (artifact : CompiledArtifact)
    (singles : List CompiledArtifact) : Prop where
  contracts : artifact.contracts = singles.flatMap CompiledArtifact.contracts
  bytecode : artifact.bytecode = singles.flatMap CompiledArtifact.bytecode
  kips_ascending : artifact.kipRequirements.Pairwise (· < ·)
  kips : ∀ kip, kip ∈ artifact.kipRequirements ↔ ∃ single ∈ singles, kip ∈ single.kipRequirements
  finalityDepth : artifact.finalityDepth = (singles.filterMap CompiledArtifact.finalityDepth).max?
  application : artifact.application.contracts =
    singles.flatMap fun single => single.application.contracts
  warnings_nodup : (artifact.warnings.map GroundingWarning.id).Nodup
  warnings : ∀ id, id ∈ artifact.warnings.map GroundingWarning.id ↔
    ∃ single ∈ singles, id ∈ single.warnings.map GroundingWarning.id

/-- Instructions encode as a sequence when each of them does. -/
theorem compileInstructionSequence_each {instructions : List Instruction} :
    (∃ bytecode, compileInstructionSequence instructions = .ok bytecode) ↔
      ∀ instruction ∈ instructions, ∃ code, encodeInstruction instruction = .ok code := by
  rw [compileInstructionSequence, joinAll_isOk, List.forall_mem_map]

theorem compileProgram_isOk {program : Program} :
    (∃ artifact, compileProgram sha256 source file version target program = .ok artifact) ↔
      (program.contracts.map fun contract => contract.name.name).Nodup ∧
        ∀ contract ∈ program.contracts, ∃ single,
          compileProgram sha256 source file version target ⟨[contract]⟩ = .ok single := by
  constructor
  · intro h
    obtain ⟨artifact, h⟩ := h
    obtain ⟨hanalyze, contracts, bytecode, hlower, hcompiles, _⟩ := compileProgram_iff.mp h
    obtain ⟨hnames, hclean⟩ := analyzeProgram_isOk.mp hanalyze
    refine ⟨hnames, ?_⟩
    intro contract hcontract
    obtain ⟨lowered, hmem, hlowered⟩ := Library.exists_mapM_of_mem hlower hcontract
    have hsubset : ∀ instruction ∈ spendInstructions lowered.spends,
        instruction ∈ IrProgram.instructions
          ⟨contracts, collectKipRequirements program, buildApplicationModel program⟩ := by
      intro instruction hinstruction
      rw [instructions_eq]
      exact List.mem_flatMap.mpr ⟨lowered, hmem, hinstruction⟩
    obtain ⟨part, hpart⟩ : ∃ part,
        compileInstructionSequence (spendInstructions lowered.spends) = .ok part := by
      apply compileInstructionSequence_each.mpr
      intro instruction hinstruction
      exact compileInstructionSequence_each.mp ⟨_, hcompiles.encoded⟩ instruction
        (hsubset instruction hinstruction)
    refine ⟨_, compileProgram_single.mpr
      ⟨lowered, part, ⟨hclean contract hcontract, hlowered, ?_, ?_, hpart⟩, rfl⟩⟩
    · intro kip hkip
      apply hcompiles.kips kip
      rw [collectKipRequirements_eq]
      exact mem_sortedSet.mpr (List.mem_flatMap.mpr ⟨contract, hcontract, hkip⟩)
    · intro instruction hinstruction
      exact hcompiles.grounded instruction (hsubset instruction hinstruction)
  · intro h
    obtain ⟨hnames, hsingles⟩ := h
    have hcontract : ∀ contract ∈ program.contracts, ∃ lowered bytecode,
        ContractCompiles source file target contract lowered bytecode := by
      intro contract hmem
      obtain ⟨single, hsingle⟩ := hsingles contract hmem
      obtain ⟨lowered, bytecode, hcompiles, _⟩ := compileProgram_single.mp hsingle
      exact ⟨lowered, bytecode, hcompiles⟩
    obtain ⟨contracts, hlower⟩ : ∃ contracts,
        program.contracts.mapM (lowerContract file) = .ok contracts := by
      apply mapM_isOk.mpr
      intro contract hmem
      obtain ⟨lowered, _, hcompiles⟩ := hcontract contract hmem
      exact ⟨lowered, hcompiles.lowers⟩
    -- every instruction of the whole program stands in the lowering of one contract
    have hinstruction : ∀ instruction ∈ IrProgram.instructions
          ⟨contracts, collectKipRequirements program, buildApplicationModel program⟩,
        isUnsupported instruction.kind = false ∧
          ∃ code, encodeInstruction instruction = .ok code := by
      intro instruction hmem
      rw [instructions_eq] at hmem
      obtain ⟨lowered, hlowered, hinstruction⟩ := List.mem_flatMap.mp hmem
      obtain ⟨contract, hmem, hlowers⟩ := Library.exists_of_mem_mapM hlower hlowered
      obtain ⟨other, bytecode, hcompiles⟩ := hcontract contract hmem
      obtain rfl : other = lowered := Except.ok.inj (hcompiles.lowers.symm.trans hlowers)
      exact ⟨hcompiles.grounded instruction hinstruction,
        compileInstructionSequence_each.mp ⟨_, hcompiles.encoded⟩ instruction hinstruction⟩
    obtain ⟨bytecode, hbytecode⟩ := compileInstructionSequence_each.mpr
      fun instruction hmem => (hinstruction instruction hmem).2
    refine ⟨_, compileProgram_iff.mpr ⟨analyzeProgram_isOk.mpr ⟨hnames, ?_⟩, contracts, bytecode,
      hlower, ⟨?_, fun instruction hmem => (hinstruction instruction hmem).1, hbytecode⟩, rfl⟩⟩
    · intro contract hmem
      obtain ⟨_, _, hcompiles⟩ := hcontract contract hmem
      exact hcompiles.clean
    · intro kip hkip
      rw [collectKipRequirements_eq] at hkip
      obtain ⟨contract, hmem, hkip⟩ := List.mem_flatMap.mp (mem_sortedSet.mp hkip)
      obtain ⟨_, _, hcompiles⟩ := hcontract contract hmem
      exact hcompiles.kips kip hkip

theorem composes_of_compileProgram {program : Program} {artifact : CompiledArtifact}
    (h : compileProgram sha256 source file version target program = .ok artifact) :
    ∃ singles, program.contracts.mapM (fun contract =>
        compileProgram sha256 source file version target ⟨[contract]⟩) = .ok singles ∧
      artifact.Composes singles := by
  obtain ⟨singles, hsingles⟩ := mapM_isOk.mpr (compileProgram_isOk.mp ⟨artifact, h⟩).2
  obtain ⟨_, contracts, bytecode, hlower, hcompiles, rfl⟩ := compileProgram_iff.mp h
  refine ⟨singles, hsingles, ?_⟩
  have hkips : ∀ kip, kip ∈ collectKipRequirements program ↔
      ∃ single ∈ singles, kip ∈ single.kipRequirements := by
    intro kip
    rw [collectKipRequirements_eq, mem_sortedSet, List.mem_flatMap]
    constructor
    · intro h
      obtain ⟨contract, hmem, hkip⟩ := h
      obtain ⟨single, hsingle, hcompile⟩ := Library.exists_mapM_of_mem hsingles hmem
      obtain ⟨_, _, _, rfl⟩ := compileProgram_single.mp hcompile
      exact ⟨_, hsingle, mem_sortedSet.mpr hkip⟩
    · intro h
      obtain ⟨single, hsingle, hkip⟩ := h
      obtain ⟨contract, hmem, hcompile⟩ := Library.exists_of_mem_mapM hsingles hsingle
      obtain ⟨_, _, _, rfl⟩ := compileProgram_single.mp hcompile
      exact ⟨contract, hmem, mem_sortedSet.mp hkip⟩
  constructor
  · show contracts.map artifactContract = _
    rw [List.map_eq_flatMap]
    apply Library.flatMap_of_mapM hlower hsingles
    intro contract lowered single hlowered hsingle
    obtain ⟨other, _, hcontract, rfl⟩ := compileProgram_single.mp hsingle
    obtain rfl : other = lowered := Except.ok.inj (hcontract.lowers.symm.trans hlowered)
    rfl
  · apply Except.ok.inj (hcompiles.encoded.symm.trans _)
    rw [compileInstructionSequence, instructions_eq, List.map_flatMap]
    apply Library.joinAll_of_mapM hlower hsingles
    intro contract lowered single hlowered hsingle
    obtain ⟨other, _, hcontract, rfl⟩ := compileProgram_single.mp hsingle
    obtain rfl : other = lowered := Except.ok.inj (hcontract.lowers.symm.trans hlowered)
    exact hcontract.encoded
  · exact pairwise_sortedSet _
  · exact hkips
  · show (contracts.filterMap IrContract.finalityDepth).max? = _
    rw [List.filterMap_eq_flatMap_toList, List.filterMap_eq_flatMap_toList]
    congr 1
    apply Library.flatMap_of_mapM hlower hsingles
    intro contract lowered single hlowered hsingle
    obtain ⟨other, _, hcontract, rfl⟩ := compileProgram_single.mp hsingle
    obtain rfl : other = lowered := Except.ok.inj (hcontract.lowers.symm.trans hlowered)
    cases hdepth : other.finalityDepth <;> simp [assembledArtifact, hdepth]
  · have hself : program.contracts.mapM (fun contract => pure (id contract)) =
        (.ok program.contracts : Except CodegenError _) := by
      rw [List.mapM_pure, List.map_id]
      rfl
    show program.contracts.map _ = _
    rw [List.map_eq_flatMap]
    apply Library.flatMap_of_mapM hself hsingles
    intro contract other single hother hsingle
    obtain rfl : contract = other := pure_eq_ok.mp hother
    obtain ⟨_, _, _, rfl⟩ := compileProgram_single.mp hsingle
    rfl
  · exact nodup_gatedWarnings _
  · intro id
    show id ∈ (gatedWarnings _).map GroundingWarning.id ↔ _
    rw [mem_gatedWarnings]
    constructor
    · intro h
      obtain ⟨kip, hkip, hrecord⟩ := h
      obtain ⟨single, hsingle, hkip⟩ := (hkips kip).mp hkip
      obtain ⟨contract, hmem, hcompile⟩ := Library.exists_of_mem_mapM hsingles hsingle
      obtain ⟨_, _, _, rfl⟩ := compileProgram_single.mp hcompile
      exact ⟨_, hsingle, mem_gatedWarnings.mpr ⟨kip, hkip, hrecord⟩⟩
    · intro h
      obtain ⟨single, hsingle, hid⟩ := h
      obtain ⟨contract, hmem, hcompile⟩ := Library.exists_of_mem_mapM hsingles hsingle
      obtain ⟨_, _, _, rfl⟩ := compileProgram_single.mp hcompile
      obtain ⟨kip, hkip, hrecord⟩ := mem_gatedWarnings.mp hid
      exact ⟨kip, (hkips kip).mpr ⟨_, hsingle, hkip⟩, hrecord⟩

/-- Leaving out a contract leaves what the others were compiled to. -/
theorem compileProgram_without {before after : List Contract} {added : Contract}
    {artifact : CompiledArtifact}
    (h : compileProgram sha256 source file version target ⟨before ++ added :: after⟩ =
      .ok artifact) :
    ∃ others, compileProgram sha256 source file version target ⟨before ++ after⟩ = .ok others ∧
      others.contracts.Sublist artifact.contracts ∧
      others.application.contracts.Sublist artifact.application.contracts := by
  have hsublist : (before ++ after).Sublist (before ++ added :: after) :=
    (List.Sublist.refl before).append (List.sublist_cons_self added after)
  obtain ⟨hnames, hsingles⟩ := compileProgram_isOk.mp ⟨artifact, h⟩
  obtain ⟨others, hothers⟩ : ∃ others,
      compileProgram sha256 source file version target ⟨before ++ after⟩ = .ok others := by
    apply compileProgram_isOk.mpr
    refine ⟨hnames.sublist (hsublist.map _), ?_⟩
    intro contract hmem
    exact hsingles contract (hsublist.subset hmem)
  obtain ⟨all, hall, hcomposes⟩ := composes_of_compileProgram h
  obtain ⟨parts, hparts, hrest⟩ := composes_of_compileProgram hothers
  have hkept : parts.Sublist all := by
    simp only [List.mapM_append, List.mapM_cons, bind_eq_ok, pure_eq_ok] at hall hparts
    obtain ⟨first, hfirst, _, ⟨single, _, last, hlast, rfl⟩, rfl⟩ := hall
    obtain ⟨first', hfirst', last', hlast', rfl⟩ := hparts
    obtain rfl : first = first' := Except.ok.inj (hfirst.symm.trans hfirst')
    obtain rfl : last = last' := Except.ok.inj (hlast.symm.trans hlast')
    exact (List.Sublist.refl first).append (List.sublist_cons_self single last)
  refine ⟨others, hothers, ?_, ?_⟩
  · rw [hrest.contracts, hcomposes.contracts]
    exact hkept.flatMap _
  · rw [hrest.application, hcomposes.application]
    exact hkept.flatMap _

/-- A program compiles exactly when its contracts have distinct names and compile one by one, its
artifact is composed of theirs, and a contract more or less changes nothing of the others. -/
theorem compileProgram_compositional (sha256 : Bytes → Bytes) (source file version : String)
    (target : Target) (program : Program) :
    ((∃ artifact, compileProgram sha256 source file version target program = .ok artifact) ↔
      (program.contracts.map fun contract => contract.name.name).Nodup ∧
        ∀ contract ∈ program.contracts, ∃ single,
          compileProgram sha256 source file version target ⟨[contract]⟩ = .ok single) ∧
    ∀ artifact, compileProgram sha256 source file version target program = .ok artifact →
      (∃ singles, program.contracts.mapM (fun contract =>
          compileProgram sha256 source file version target ⟨[contract]⟩) = .ok singles ∧
        artifact.Composes singles) ∧
      ∀ before added after, program.contracts = before ++ added :: after →
        ∃ others, compileProgram sha256 source file version target ⟨before ++ after⟩ =
            .ok others ∧
          others.contracts.Sublist artifact.contracts ∧
          others.application.contracts.Sublist artifact.application.contracts := by
  refine ⟨compileProgram_isOk, ?_⟩
  intro artifact h
  refine ⟨composes_of_compileProgram h, ?_⟩
  intro before added after hsplit
  have hprogram : program = ⟨before ++ added :: after⟩ := by rw [← hsplit]
  rw [hprogram] at h
  exact compileProgram_without h

end

end KaspaScript
