import KaspaScript.Codegen.Compiled
import KaspaScript.Sdk.Instantiate

namespace KaspaScript

open Library (bind_eq_ok pure_eq_ok)

/-- What an instantiation was compiled and bound from. -/
structure BoundFrom (lib : ScriptLib) (file : String) (artifact : CompiledArtifact)
    (contractName spendName : String) (bindings : Bindings) (instantiation : ContractInstantiation)
    (contract : Contract) (spend : Spend) (compiledContract : ArtifactContract)
    (compiled : ArtifactSpend) (code : List Instruction) : Prop where
  compiledTo : CompiledTo file contract spend compiledContract compiled
  contractFound : findContract artifact contractName = .ok compiledContract
  spendFound : findSpend compiledContract spendName = .ok compiled
  valid : validateParamBindings compiledContract.params bindings = .ok ()
  bound : instantiateFrom lib compiledContract compiled spendName bindings none
    compiled.instructions = .ok code
  script : compileSpendScript code = .ok instantiation.redeemScript
  locking : instantiation.scriptPublicKey = lib.payToScriptHashScript instantiation.redeemScript
  spendArgs : instantiation.spendArgs = compiled.params

theorem mem_of_findContract {artifact : CompiledArtifact} {name : String}
    {contract : ArtifactContract} (h : findContract artifact name = .ok contract) :
    contract ∈ artifact.contracts := by
  unfold findContract at h
  split at h
  · rename_i found hfound
    obtain rfl := Except.ok.inj h
    rcases Option.or_eq_some_iff.mp hfound with hfind | ⟨_, hhead⟩
    · exact List.mem_of_find?_eq_some hfind
    · exact List.mem_of_head? hhead
  · cases h

theorem mem_of_findSpend {contract : ArtifactContract} {name : String} {spend : ArtifactSpend}
    (h : findSpend contract name = .ok spend) : spend ∈ contract.spends := by
  unfold findSpend at h
  split at h
  · rename_i found hfound
    obtain rfl := Except.ok.inj h
    exact List.mem_of_find?_eq_some hfound
  · cases h

/-- Every instantiated spend stands for one of the source. -/
theorem boundFrom_of_instantiateContract {lib : ScriptLib} {sha256 : Bytes → Bytes}
    {source file : String} {target : Target} {artifact : CompiledArtifact}
    (hcompile : compileFileForTarget sha256 source file target = .ok artifact)
    {contractName spendName : String} {bindings : Bindings} {network : TestnetTarget}
    {instantiation : ContractInstantiation}
    (h : instantiateContract lib artifact contractName spendName bindings network =
      .ok instantiation) :
    ∃ program, parseFile source file = .ok program ∧ ProgramAccepted program source file ∧
      ∃ contract ∈ program.contracts, ∃ spend ∈ contract.spends, ∃ compiledContract compiled code,
        BoundFrom lib file artifact contractName spendName bindings instantiation contract spend
          compiledContract compiled code := by
  obtain ⟨program, hparse, haccepted, hcompiled⟩ := forCompiled_of_compile hcompile
  obtain ⟨compiledContract, hcontract, h⟩ := bind_eq_ok.mp h
  by_cases hsingle : compiledContract.spends.length ≠ 1
  · rw [if_pos hsingle] at h
    cases h
  rw [if_neg hsingle] at h
  obtain ⟨compiled, hspend, h⟩ := bind_eq_ok.mp h
  obtain ⟨_, hvalid, h⟩ := bind_eq_ok.mp h
  obtain ⟨code, hcode, h⟩ := bind_eq_ok.mp h
  obtain ⟨script, hscript, h⟩ := bind_eq_ok.mp h
  obtain ⟨address, haddress, h⟩ := bind_eq_ok.mp h
  obtain ⟨paramsHash, hhash, h⟩ := bind_eq_ok.mp h
  obtain rfl := pure_eq_ok.mp h
  obtain ⟨contract, hmem, spend, hmem', hto⟩ := hcompiled.exists_source
    (mem_of_findContract hcontract) (mem_of_findSpend hspend)
  exact ⟨program, hparse, haccepted, contract, hmem, spend, hmem', compiledContract, compiled, code,
    hto, hcontract, hspend, hvalid, hcode, Library.mapError_eq_ok.mp hscript, rfl, rfl⟩

end KaspaScript
