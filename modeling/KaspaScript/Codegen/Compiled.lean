import KaspaScript.Codegen.Compile
import KaspaScript.Codegen.Declared

namespace KaspaScript

open Library (joinAll)

/-- What a spend of a source was compiled to. -/
structure CompiledTo (file : String) (contract : Contract) (spend : Spend)
    (compiledContract : ArtifactContract) (compiled : ArtifactSpend) : Prop where
  contractName : compiledContract.name = contract.name.name
  contractParams : compiledContract.params = artifactParams (lowerParams contract.params)
  name : compiled.name = spend.name.name
  params : compiled.params = artifactParams (lowerParams spend.params)
  body : joinAll (spend.body.map (lowerStmt file)) = .ok compiled.instructions
  supported : ∀ kind ∈ kinds compiled.instructions, isUnsupported kind = false

/-- The spends of a program and those of an artifact, one by one, each with its contract. -/
def ForCompiled (R : Contract → Spend → ArtifactContract → ArtifactSpend → Prop)
    (program : Program) (artifact : CompiledArtifact) : Prop :=
  List.Forall₂ (fun contract compiledContract =>
    List.Forall₂ (fun spend compiled => R contract spend compiledContract compiled) contract.spends
      compiledContract.spends) program.contracts artifact.contracts

section

variable {R S : Contract → Spend → ArtifactContract → ArtifactSpend → Prop} {program : Program}
  {artifact : CompiledArtifact}

theorem ForCompiled.imp (h : ForCompiled R program artifact)
    (hRS : ∀ contract ∈ program.contracts, ∀ spend ∈ contract.spends, ∀ compiledContract compiled,
      R contract spend compiledContract compiled → S contract spend compiledContract compiled) :
    ForCompiled S program artifact := by
  apply (Library.forall₂_mem h).imp
  intro contract compiledContract hcontract
  obtain ⟨hmem, _, hspends⟩ := hcontract
  apply (Library.forall₂_mem hspends).imp
  intro spend compiled hspend
  exact hRS contract hmem spend hspend.1 compiledContract compiled hspend.2.2

/-- Every spend of an artifact stands for one of the source. -/
theorem ForCompiled.exists_source (h : ForCompiled R program artifact)
    {compiledContract : ArtifactContract} (hcontract : compiledContract ∈ artifact.contracts)
    {compiled : ArtifactSpend} (hspend : compiled ∈ compiledContract.spends) :
    ∃ contract ∈ program.contracts, ∃ spend ∈ contract.spends,
      R contract spend compiledContract compiled := by
  obtain ⟨contract, hmem, hspends⟩ := Library.exists_of_forall₂ h hcontract
  obtain ⟨spend, hmem', hR⟩ := Library.exists_of_forall₂ hspends hspend
  exact ⟨contract, hmem, spend, hmem', hR⟩

end

theorem compiledTo_of_lower {file : String} {contract : Contract} {lowered : IrContract}
    (hcontract : lowerContract file contract = .ok lowered) {spend : Spend}
    {loweredSpend : IrSpend} (hspend : lowerSpend file spend = .ok loweredSpend)
    (hsupported : ∀ kind ∈ kinds loweredSpend.instructions, isUnsupported kind = false) :
    CompiledTo file contract spend (artifactContract lowered) (artifactSpend loweredSpend) := by
  obtain ⟨hname, hparams, _⟩ := lowerContract_eq_ok hcontract
  obtain ⟨hname', hparams', hbody⟩ := lowerSpend_eq_ok hspend
  exact ⟨hname, by rw [← hparams]; rfl, hname', by rw [← hparams']; rfl, hbody, hsupported⟩

/-- The compiler takes every spend of an accepted source to one of the artifact. -/
theorem forCompiled_of_compile {sha256 : Bytes → Bytes} {source file : String} {target : Target}
    {artifact : CompiledArtifact}
    (h : compileFileForTarget sha256 source file target = .ok artifact) :
    ∃ program, parseFile source file = .ok program ∧ ProgramAccepted program source file ∧
      ForCompiled (CompiledTo file) program artifact := by
  obtain ⟨ir, hlower, hcompile⟩ := lowerFile_of_compile h
  obtain ⟨program, hparse, haccepted, hlower⟩ := program_of_lowerFile hlower
  refine ⟨program, hparse, haccepted, ?_⟩
  obtain ⟨_, _, hcontracts⟩ := lowerProgram_eq_ok hlower
  obtain ⟨_, hground, _, _⟩ := compileToccata_eq_ok hcompile
  rw [ForCompiled, contracts_of_compileToccata hcompile, List.forall₂_map_right_iff]
  apply (Library.forall₂_mem (Library.forall₂_of_mapM hcontracts)).imp
  intro contract lowered hcontract
  obtain ⟨_, hmem, hcontract⟩ := hcontract
  obtain ⟨_, _, hspends⟩ := lowerContract_eq_ok hcontract
  rw [artifactContract, List.forall₂_map_right_iff]
  apply (Library.forall₂_mem (Library.forall₂_of_mapM hspends)).imp
  intro spend loweredSpend hspend
  obtain ⟨_, hmem', hspend⟩ := hspend
  apply compiledTo_of_lower hcontract hspend
  intro kind hkind
  obtain ⟨instruction, hinstruction, rfl⟩ := List.mem_map.mp hkind
  exact hground instruction (mem_instructions.mpr ⟨lowered, hmem, loweredSpend, hmem', hinstruction⟩)

end KaspaScript
