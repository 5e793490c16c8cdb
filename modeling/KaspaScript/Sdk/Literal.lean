import KaspaScript.Codegen.Compositional
import KaspaScript.Ir.Substitute
import KaspaScript.Sdk.Fees

namespace KaspaScript

open Checker (paramNames builtinNames)
open Testnet (flatLib)
open Library (Alike alike_pure joinAll joinAll_append joinAll_cons bind_eq_ok pure_eq_ok)

/-- The binding that a literal stands for. -/
def Literal.paramValue : Literal → ParamValue
  | .integer value => .integer value
  | .bool value => .bool value
  | .string value => .bytes (utf8Bytes value)

/-- A parameter of this type can be written as the literal. -/
def Literal.Fits : Literal → TypeName → Prop
  | .integer _, ty => ty = .amount ∨ ty = .blockHeight
  | .bool _, ty => ty = .bool
  | .string _, ty => ty = .bytes

/-- What the binding puts in the place of the parameter. -/
def Literal.bound : Literal → Value
  | .integer value => .integer value
  | .bool value => .bool value
  | .string value => .bytes (utf8Bytes value)

theorem valueToIr_literal {lib : ScriptLib} {literal : Literal} {ty : TypeName}
    (h : literal.Fits ty) (flag : Bool) :
    valueToIr lib literal.paramValue ty flag = .ok literal.bound := by
  cases literal with
  | integer n => rcases h with rfl | rfl <;> rfl
  | bool b =>
    obtain rfl : ty = .bool := h
    rfl
  | string text =>
    obtain rfl : ty = .bytes := h
    rfl

theorem encodePush_bound (literal : Literal) (span : Span) :
    encodePush literal.bound span = encodePush literal.value span := by
  cases literal <;> rfl

/-- Two instruction lists that encode to the same bytes and are empty together. -/
structure SameCode (a b : List Instruction) : Prop where
  empty : a = [] ↔ b = []
  code : ∀ bytes, compileInstructionSequence a = .ok bytes ↔
    compileInstructionSequence b = .ok bytes

namespace SameCode

theorem refl (a : List Instruction) : SameCode a a := ⟨Iff.rfl, fun _ => Iff.rfl⟩

theorem append {a b c d : List Instruction} (h : SameCode a b) (h' : SameCode c d) :
    SameCode (a ++ c) (b ++ d) := by
  constructor
  · rw [List.append_eq_nil_iff, List.append_eq_nil_iff, h.empty, h'.empty]
  · intro bytes
    have hsplit (x y : List Instruction) : compileInstructionSequence (x ++ y) = .ok bytes ↔
        ∃ first rest, compileInstructionSequence x = .ok first ∧
          compileInstructionSequence y = .ok rest ∧ bytes = first ++ rest := by
      simp only [compileInstructionSequence, List.map_append]
      exact joinAll_append
    rw [hsplit, hsplit]
    simp only [h.code, h'.code]

theorem spendScript {a b : List Instruction} (h : SameCode a b) (script : Bytes) :
    compileSpendScript a = .ok script ↔ compileSpendScript b = .ok script := by
  unfold compileSpendScript
  by_cases hempty : a = []
  · rw [if_pos hempty, if_pos (h.empty.mp hempty)]
  · rw [if_neg hempty, if_neg (mt h.empty.mpr hempty)]
    simp only [bind_eq_ok, h.code]

end SameCode

/-- The span of a number only names the place of its error. -/
theorem encodeU64_span {n : Nat} (span span' : Span) (bytes : Bytes) :
    encodeU64 n span = .ok bytes ↔ encodeU64 n span' = .ok bytes := by
  have hdata (data : Bytes) :
      encodeData data span = .ok bytes ↔ encodeData data span' = .ok bytes := by
    simp only [encodeData]
    split_ifs <;> simp
  unfold encodeU64
  split_ifs
  · simp
  · exact Iff.rfl
  · exact Iff.rfl
  · exact hdata _

/-- A bound pushed before a lock check encodes as the check of a literal bound. -/
theorem sameCode_lock (clock : LockClock) (n : Nat) (span span' : Span) :
    SameCode [⟨span, .push (.integer n)⟩, ⟨span', clock.fromStack⟩] [⟨span', clock.literal n⟩] := by
  constructor
  · simp
  · intro bytes
    have hstack : encodeInstruction ⟨span', clock.fromStack⟩ = .ok [opCheckLockTimeVerify, op1] := by
      cases clock <;> rfl
    have hliteral : encodeInstruction ⟨span', clock.literal n⟩ = (do
        let bound ← encodeU64 n span'
        pure (bound ++ [opCheckLockTimeVerify, op1])) := by
      cases clock <;> rfl
    have hpush : encodeInstruction ⟨span, .push (.integer n)⟩ = encodeU64 n span := rfl
    simp only [compileInstructionSequence, List.map_cons, List.map_nil,
      Library.joinAll_singleton, joinAll_cons, hstack, hliteral, hpush, bind_eq_ok, pure_eq_ok,
      encodeU64_span span span']
    constructor
    · intro h
      obtain ⟨first, others, hfirst, hothers, hbytes⟩ := h
      obtain rfl := Except.ok.inj hothers
      exact ⟨first, hfirst, hbytes.symm⟩
    · intro h
      obtain ⟨first, hfirst, hbytes⟩ := h
      exact ⟨first, _, hfirst, rfl, hbytes.symm⟩

section

variable {lib : ScriptLib} {contract contract' : ArtifactContract} {spend spend' : ArtifactSpend}
  {spendName p : String} {bindings : Bindings} {literal : Literal} {ty : TypeName}

/-- What instantiation reads of a contract and a spend: their parameters. -/
theorem instantiateKind_congr (hcontract : contract'.params = contract.params)
    (hspend : spend'.params = spend.params) {previous previous' : Option InstructionKind}
    (hprevious : previous'.any isScriptRead = previous.any isScriptRead) (kind : InstructionKind) :
    instantiateKind lib contract' spend' spendName bindings previous' kind =
      instantiateKind lib contract spend spendName bindings previous kind := by
  unfold instantiateKind
  rw [hcontract, hspend, hprevious]

theorem instantiateKind_bound (hspend : p ∉ spend.params.map ArtifactParam.name)
    (hty : paramType contract.params p = some ty) (hfits : literal.Fits ty)
    (hbinding : bindings.lookup p = some literal.paramValue)
    (previous : Option InstructionKind) :
    instantiateKind lib contract spend spendName bindings previous (.push (.symbol p)) =
      .ok [.push literal.bound] := by
  simp only [instantiateKind, if_neg hspend, hty, hbinding, valueToIr_literal hfits,
    Library.ok_bind]
  rfl

/-- Instantiating both gives the same bytes, or fails twice. -/
theorem sameCode_instantiateFrom (hcontract : contract'.params = contract.params)
    (hspendParams : spend'.params = spend.params)
    (hspend : p ∉ spend.params.map ArtifactParam.name)
    (hty : paramType contract.params p = some ty) (hfits : literal.Fits ty)
    (hbinding : bindings.lookup p = some literal.paramValue) {a b : List Instruction}
    (h : Substituted p literal a b) {previous previous' : Option InstructionKind}
    (hprevious : previous'.any isScriptRead = previous.any isScriptRead) :
    Alike SameCode (instantiateFrom lib contract spend spendName bindings previous a)
      (instantiateFrom lib contract' spend' spendName bindings previous' b) := by
  have hbound (previous : Option InstructionKind) :=
    @instantiateKind_bound lib contract spend spendName p bindings literal ty hspend hty hfits
      hbinding previous
  induction h generalizing previous previous' with
  | nil => exact SameCode.refl []
  | same instruction _ ih =>
    rw [instantiateFrom, instantiateFrom,
      instantiateKind_congr hcontract hspendParams hprevious]
    apply (Library.alike_refl (fun _ => rfl) (instantiateKind lib contract spend spendName bindings
      previous instruction.kind)).bind
    intro kinds kinds' hkinds
    apply (ih rfl).bind
    intro c d hcd
    rw [hkinds]
    exact alike_pure ((SameCode.refl _).append hcd)
  | value span _ ih =>
    have hkind : instantiateKind lib contract' spend' spendName bindings previous'
        (.push literal.value) = .ok [.push literal.value] := by cases literal <;> rfl
    rw [instantiateFrom, instantiateFrom, hbound, hkind]
    simp only [Library.ok_bind]
    have hread : (some (InstructionKind.push literal.value)).any isScriptRead =
        (some (InstructionKind.push (.symbol p))).any isScriptRead := rfl
    apply (ih hread).bind
    intro c d hcd
    have hone : SameCode [⟨span, .push literal.bound⟩] [⟨span, .push literal.value⟩] := by
      constructor
      · simp
      · intro bytes
        simp only [compileInstructionSequence, List.map_cons, List.map_nil, encodeInstruction,
          encodePush_bound]
    exact alike_pure (hone.append hcd)
  | @lock a b n clock span span' hn _ ih =>
    subst hn
    have hstack : instantiateKind lib contract spend spendName bindings
        (some (.push (.symbol p))) clock.fromStack = .ok [clock.fromStack] := by cases clock <;> rfl
    have hliteral : instantiateKind lib contract' spend' spendName bindings previous'
        (clock.literal n) = .ok [clock.literal n] := by cases clock <;> rfl
    rw [instantiateFrom, instantiateFrom, instantiateFrom, hbound, hstack, hliteral]
    simp only [Library.ok_bind]
    have hread : (some (clock.literal n)).any isScriptRead =
        (some clock.fromStack).any isScriptRead := by cases clock <;> rfl
    have hrest := ih hread
    cases hfirst : instantiateFrom lib contract spend spendName bindings (some clock.fromStack) a with
    | error e =>
      rw [hfirst] at hrest
      cases hsecond : instantiateFrom lib contract' spend' spendName bindings
          (some (clock.literal n)) b with
      | error e' => trivial
      | ok d =>
        rw [hsecond] at hrest
        cases hrest
    | ok c =>
      rw [hfirst] at hrest
      cases hsecond : instantiateFrom lib contract' spend' spendName bindings
          (some (clock.literal n)) b with
      | error e' =>
        rw [hsecond] at hrest
        cases hrest
      | ok d =>
        rw [hsecond] at hrest
        exact (sameCode_lock clock n span span').append hrest

end

/-- Instantiation keeps every instruction that is no parameter's push. -/
theorem mem_instantiateFrom {lib : ScriptLib} {contract : ArtifactContract} {spend : ArtifactSpend}
    {spendName : String} {bindings : Bindings} {previous : Option InstructionKind}
    {code out : List Instruction}
    (h : instantiateFrom lib contract spend spendName bindings previous code = .ok out)
    {instruction : Instruction} (hmem : instruction ∈ code) :
    (∃ name, instruction.kind = .push (.symbol name)) ∨ instruction ∈ out := by
  induction code generalizing previous out with
  | nil => cases hmem
  | cons first rest ih =>
    obtain ⟨bound, hbound, h⟩ := bind_eq_ok.mp h
    obtain ⟨others, hothers, h⟩ := bind_eq_ok.mp h
    obtain rfl := pure_eq_ok.mp h
    rcases List.mem_cons.mp hmem with rfl | hmem
    · by_cases hsymbol : ∃ name, instruction.kind = .push (.symbol name)
      · exact .inl hsymbol
      · have hkept : instantiateKind lib contract spend spendName bindings previous
            instruction.kind = .ok [instruction.kind] := by
          unfold instantiateKind
          split
          · rename_i name hname
            exact absurd ⟨name, hname⟩ hsymbol
          · rfl
        obtain rfl := Except.ok.inj (hkept.symm.trans hbound)
        exact .inr (by simp)
    · rcases ih hothers hmem with hsymbol | hout
      · exact .inl hsymbol
      · exact .inr (List.mem_append_right _ hout)

namespace Substituted

variable {p : String} {literal : Literal} {a b : List Instruction}

/-- The symbols left after the substitution were there before it. -/
theorem symbol (h : Substituted p literal a b) {instruction : Instruction}
    (hmem : instruction ∈ b) {name : String} (hname : instruction.kind = .push (.symbol name)) :
    instruction ∈ a := by
  induction h with
  | nil => cases hmem
  | same other _ ih =>
    rcases List.mem_cons.mp hmem with rfl | hmem
    · exact List.mem_cons_self
    · exact List.mem_cons_of_mem _ (ih hmem)
  | value span _ ih =>
    rcases List.mem_cons.mp hmem with rfl | hmem
    · cases literal <;> cases hname
    · exact List.mem_cons_of_mem _ (ih hmem)
  | lock clock span span' hn _ ih =>
    rcases List.mem_cons.mp hmem with rfl | hmem
    · cases clock <;> cases hname
    · exact List.mem_cons_of_mem _ (List.mem_cons_of_mem _ (ih hmem))

theorem supported (h : Substituted p literal a b) :
    (∀ instruction ∈ a, isUnsupported instruction.kind = false) ↔
      ∀ instruction ∈ b, isUnsupported instruction.kind = false := by
  induction h with
  | nil => simp
  | same other _ ih => rw [List.forall_mem_cons, List.forall_mem_cons, ih]
  | value span _ ih =>
    rw [List.forall_mem_cons, List.forall_mem_cons, ih]
    simp [isUnsupported]
  | lock clock span span' hn _ ih =>
    rw [List.forall_mem_cons, List.forall_mem_cons, List.forall_mem_cons, ih]
    cases clock <;> simp [isUnsupported, LockClock.fromStack, LockClock.literal]

/-- Where the name fits a push, what encodes after the substitution encoded before it. -/
theorem encodes (h : Substituted p literal a b) (hp : (utf8Bytes p).length ≤ u32Max)
    (hb : ∀ instruction ∈ b, ∃ code, encodeInstruction instruction = .ok code) :
    ∀ instruction ∈ a, ∃ code, encodeInstruction instruction = .ok code := by
  have hpush (span : Span) : ∃ code, encodeInstruction ⟨span, .push (.symbol p)⟩ = .ok code :=
    encodeData_ok span hp
  induction h with
  | nil => simp
  | same other _ ih =>
    rw [List.forall_mem_cons] at hb ⊢
    exact ⟨hb.1, ih hb.2⟩
  | value span _ ih =>
    rw [List.forall_mem_cons] at hb ⊢
    exact ⟨hpush span, ih hb.2⟩
  | lock clock span span' hn _ ih =>
    rw [List.forall_mem_cons] at hb
    rw [List.forall_mem_cons, List.forall_mem_cons]
    exact ⟨hpush span, by cases clock <;> exact ⟨_, rfl⟩, ih hb.2⟩

end Substituted

/-- What goes on the chain of an instantiated contract: its redeem script, the hash of the locking
script and the address. -/
def instantiatedScript (lib : ScriptLib) (artifact : CompiledArtifact)
    (contractName spendName : String) (bindings : Bindings) (target : TestnetTarget) :
    Option (Bytes × String × Address) :=
  (instantiateContract lib artifact contractName spendName bindings target).toOption.map
    fun instantiation => (instantiation.redeemScript, instantiation.lockingScriptHash,
      instantiation.lockingAddress)

/-- What instantiation looks up and makes of one contract. -/
theorem instantiatedScript_iff {lib : ScriptLib} {artifact : CompiledArtifact}
    {contractName spendName : String} {bindings : Bindings} {target : TestnetTarget}
    {result : Bytes × String × Address} :
    instantiatedScript lib artifact contractName spendName bindings target = some result ↔
      ∃ contract spend transformed paramsHash, findContract artifact contractName = .ok contract ∧
        contract.spends.length = 1 ∧ findSpend contract spendName = .ok spend ∧
        validateParamBindings contract.params bindings = .ok () ∧
        instantiateFrom lib contract spend spendName bindings none spend.instructions =
          .ok transformed ∧
        compileSpendScript transformed = .ok result.1 ∧
        lib.extractScriptPubKeyAddress (lib.payToScriptHashScript result.1) .testnet =
          .ok result.2.2 ∧
        hashParams lib bindings = .ok paramsHash ∧
        result.2.1 = sha256Hex lib (lib.payToScriptHashScript result.1).script := by
  constructor
  · intro h
    obtain ⟨instantiation, hok, hresult⟩ := Library.toOption_map_eq_some h
    subst hresult
    obtain ⟨contract, spend, transformed, address, paramsHash, hcontract, hsingle, hspend, hvalid,
      htransformed, hscript, haddress, hhash, hlocked, hlockedHash, _⟩ :=
      instantiateContract_eq_ok hok
    rw [← hlocked] at haddress
    exact ⟨contract, spend, transformed, paramsHash, hcontract, hsingle, hspend, hvalid,
      htransformed, hscript, haddress, hhash, hlockedHash⟩
  · intro h
    obtain ⟨contract, spend, transformed, paramsHash, hcontract, hsingle, hspend, hvalid,
      htransformed, hscript, haddress, hhash, hresult⟩ := h
    obtain ⟨script, scriptHash, address⟩ := result
    simp only at hscript haddress hresult
    subst hresult
    unfold instantiatedScript instantiateContract
    rw [hcontract]
    simp only [Library.ok_bind, hsingle, ne_eq, not_true_eq_false, if_false, hspend, hvalid,
      htransformed, hscript, haddress, hhash, Except.mapError]
    rfl

/-- Of distinct declarations the type found is the declared one. -/
theorem paramType_of_declared {params : List Param} {param : Param}
    (hfresh : Library.Fresh [] (paramNames params)) (hmem : param ∈ params) :
    paramType (artifactParams (lowerParams params)) param.name.name = some param.ty := by
  have hnames : (artifactParams (lowerParams params)).reverse.map ArtifactParam.name =
      (paramNames params).reverse := by
    simp [artifactParams, lowerParams, paramNames, Function.comp_def]
  have hreverse : Library.Fresh []
      ((artifactParams (lowerParams params)).reverse.map ArtifactParam.name) := by
    rw [hnames]
    exact ⟨List.nodup_reverse.mpr hfresh.1, by simp⟩
  have hdeclared : (⟨param.name.name, param.ty⟩ : ArtifactParam) ∈
      (artifactParams (lowerParams params)).reverse := by
    simp only [artifactParams, lowerParams, List.map_map, List.mem_reverse, List.mem_map]
    exact ⟨param, hmem, rfl⟩
  rw [paramType, Library.find?_of_fresh hreverse hdeclared]
  rfl

/-- The contract of a name is found behind others whose names differ in more than case. -/
theorem findContract_of_unmatched {artifact : CompiledArtifact} {others rest : List ArtifactContract}
    {contract : ArtifactContract} (hcontracts : artifact.contracts = others ++ contract :: rest)
    (hothers : ∀ other ∈ others, eqIgnoreAsciiCase other.name contract.name = false) :
    findContract artifact contract.name = .ok contract := by
  have hnone : others.find? (fun other => other.name == contract.name ||
      eqIgnoreAsciiCase other.name contract.name) = none := by
    rw [List.find?_eq_none]
    intro other hother hmatch
    have hdiffers := hothers other hother
    rw [hdiffers, Bool.or_false, beq_iff_eq] at hmatch
    rw [hmatch] at hdiffers
    simp [eqIgnoreAsciiCase] at hdiffers
  have hfound : artifact.contracts.find? (fun other => other.name == contract.name ||
      eqIgnoreAsciiCase other.name contract.name) = some contract := by
    rw [hcontracts, List.find?_append, hnone]
    simp
  unfold findContract
  rw [hfound]
  rfl

theorem findSpend_single {contract : ArtifactContract} {spend : ArtifactSpend}
    (h : contract.spends = [spend]) {spendName : String} (found : ArtifactSpend) :
    findSpend contract spendName = .ok found ↔ spend.name = spendName ∧ found = spend := by
  unfold findSpend
  rw [h]
  by_cases hname : spend.name = spendName
  · simp [hname, eq_comm]
  · simp [hname]

/-- Compiling a program and instantiating one of its contracts, as far as the redeem script, the
hash of the locking script and the address. -/
def boundScript (lib : ScriptLib) (source file version : String) (target : Target)
    (program : Program) (contractName spendName : String) (bindings : Bindings)
    (network : TestnetTarget) : Option (Bytes × String × Address) := do
  let ir ← (lowerProgram program (collectKipRequirements program) file).toOption
  let artifact ← (compileToccata lib.sha256 source ir version target).toOption
  instantiatedScript lib artifact contractName spendName bindings network

section

variable {lib : ScriptLib} {source version : String} {target : Target} {p : String}
  {literal : Literal} {ty : TypeName} {bindings : Bindings} {network : TestnetTarget}

/-- The instantiations of a single-spend contract and of the one with the literal. -/
theorem instantiate_substituted {artifact artifact' : CompiledArtifact} {contractName : String}
    {lowered lowered' : IrContract}
    (hsub : ContractSubstituted p literal lowered lowered')
    (hfind : findContract artifact contractName = .ok (artifactContract lowered))
    (hfind' : findContract artifact' contractName = .ok (artifactContract lowered'))
    (hspends : ∀ spend ∈ lowered.spends, p ∉ spend.params.map IrParam.name)
    (hty : paramType (artifactParams lowered.params) p = some ty) (hfits : literal.Fits ty)
    (hbinding : bindings.lookup p = some literal.paramValue) (spendName : String) :
    instantiatedScript lib artifact contractName spendName bindings network =
      instantiatedScript lib artifact' contractName spendName bindings network := by
  have hparams : (artifactContract lowered').params = (artifactContract lowered).params :=
    congrArg artifactParams hsub.params
  have hlength : (artifactContract lowered').spends.length =
      (artifactContract lowered).spends.length := by
    simp [artifactContract, hsub.spends.length_eq]
  ext result
  rw [instantiatedScript_iff, instantiatedScript_iff]
  by_cases hone : (artifactContract lowered).spends.length = 1
  · obtain ⟨spend, hspend⟩ : ∃ spend, lowered.spends = [spend] := by
      apply List.length_eq_one_iff.mp
      simpa [artifactContract] using hone
    have hforall := hsub.spends
    rw [hspend, List.forall₂_cons_left_iff] at hforall
    obtain ⟨spend', _, hsame, hnil, hspend'⟩ := hforall
    rw [List.forall₂_nil_left_iff] at hnil
    subst hnil
    have hspendParams : (artifactSpend spend').params = (artifactSpend spend).params :=
      congrArg artifactParams hsame.params
    have hnot : p ∉ (artifactSpend spend).params.map ArtifactParam.name := by
      have hnames : (artifactSpend spend).params.map ArtifactParam.name =
          spend.params.map IrParam.name := by
        simp [artifactSpend, artifactParams, Function.comp_def]
      rw [hnames]
      exact hspends spend (by rw [hspend]; exact List.mem_singleton_self spend)
    have hcode : Alike SameCode
        (instantiateFrom lib (artifactContract lowered) (artifactSpend spend) spendName bindings
          none spend.instructions)
        (instantiateFrom lib (artifactContract lowered') (artifactSpend spend') spendName bindings
          none spend'.instructions) :=
      sameCode_instantiateFrom hparams hspendParams hnot hty hfits hbinding hsame.instructions rfl
    have hscript : (∃ transformed, instantiateFrom lib (artifactContract lowered)
          (artifactSpend spend) spendName bindings none spend.instructions = .ok transformed ∧
          compileSpendScript transformed = .ok result.1) ↔
        ∃ transformed, instantiateFrom lib (artifactContract lowered') (artifactSpend spend')
          spendName bindings none spend'.instructions = .ok transformed ∧
          compileSpendScript transformed = .ok result.1 := by
      constructor
      · intro h
        obtain ⟨transformed, htransformed, hscript⟩ := h
        obtain ⟨transformed', htransformed'⟩ := hcode.isOk.mp ⟨_, htransformed⟩
        exact ⟨transformed', htransformed',
          ((hcode.of_ok htransformed htransformed').spendScript _).mp hscript⟩
      · intro h
        obtain ⟨transformed', htransformed', hscript⟩ := h
        obtain ⟨transformed, htransformed⟩ := hcode.isOk.mpr ⟨_, htransformed'⟩
        exact ⟨transformed, htransformed,
          ((hcode.of_ok htransformed htransformed').spendScript _).mpr hscript⟩
    have hspends : (artifactContract lowered).spends = [artifactSpend spend] := by
      simp [artifactContract, hspend]
    have hspends' : (artifactContract lowered').spends = [artifactSpend spend'] := by
      simp [artifactContract, hspend']
    have hname : (artifactSpend spend').name = (artifactSpend spend).name := hsame.name
    constructor
    · intro h
      obtain ⟨contract, found, transformed, paramsHash, hcontract, _, hfound, hvalid, htransformed,
        hbytes, hrest⟩ := h
      obtain rfl := Except.ok.inj (hfind.symm.trans hcontract)
      obtain ⟨hnamed, rfl⟩ := (findSpend_single hspends found).mp hfound
      obtain ⟨transformed', htransformed', hbytes'⟩ := hscript.mp ⟨_, htransformed, hbytes⟩
      exact ⟨_, _, transformed', paramsHash, hfind', hlength.trans hone,
        (findSpend_single hspends' _).mpr ⟨hname.trans hnamed, rfl⟩, by rw [hparams]; exact hvalid,
        htransformed', hbytes', hrest⟩
    · intro h
      obtain ⟨contract, found, transformed', paramsHash, hcontract, _, hfound, hvalid, htransformed',
        hbytes', hrest⟩ := h
      obtain rfl := Except.ok.inj (hfind'.symm.trans hcontract)
      obtain ⟨hnamed, rfl⟩ := (findSpend_single hspends' found).mp hfound
      obtain ⟨transformed, htransformed, hbytes⟩ := hscript.mpr ⟨_, htransformed', hbytes'⟩
      exact ⟨_, _, transformed, paramsHash, hfind, hone,
        (findSpend_single hspends _).mpr ⟨hname.symm.trans hnamed, rfl⟩,
        by rw [← hparams]; exact hvalid, htransformed, hbytes, hrest⟩
  · constructor
    · intro h
      obtain ⟨contract, _, _, _, hcontract, hlen, _⟩ := h
      obtain rfl := Except.ok.inj (hfind.symm.trans hcontract)
      exact absurd hlen hone
    · intro h
      obtain ⟨contract, _, _, _, hcontract, hlen, _⟩ := h
      obtain rfl := Except.ok.inj (hfind'.symm.trans hcontract)
      exact absurd (hlength.symm.trans hlen) hone

/-- When a program compiles and one of its contracts instantiates. -/
theorem boundScript_iff {file : String} {program : Program} {contractName spendName : String}
    {result : Bytes × String × Address} :
    boundScript lib source file version target program contractName spendName bindings network =
        some result ↔
      ∃ ir bytecode, lowerProgram program (collectKipRequirements program) file = .ok ir ∧
        ir.CompilesTo target bytecode ∧
        instantiatedScript lib (assembledArtifact lib.sha256 source version target ir bytecode)
            contractName spendName bindings network = some result := by
  have hoption {ε α : Type} (x : Except ε α) (a : α) : x.toOption = some a ↔ x = .ok a := by
    cases x <;> simp [Except.toOption]
  unfold boundScript
  simp only [Option.bind_eq_bind, Option.bind_eq_some_iff, hoption]
  constructor
  · intro h
    obtain ⟨ir, hir, artifact, hartifact, h⟩ := h
    obtain ⟨bytecode, hcompiles, rfl⟩ := compileToccata_iff.mp hartifact
    exact ⟨ir, bytecode, hir, hcompiles, h⟩
  · intro h
    obtain ⟨ir, bytecode, hir, hcompiles, h⟩ := h
    exact ⟨ir, hir, _, compileToccata_iff.mpr ⟨bytecode, hcompiles, rfl⟩, h⟩

/-- The instructions of a contract among those of its program. -/
theorem forall_instructions {ir : IrProgram} {others rest : List IrContract} {lowered : IrContract}
    {spend : IrSpend} (hcontracts : ir.contracts = others ++ lowered :: rest)
    (hspends : lowered.spends = [spend]) (P : Instruction → Prop) :
    (∀ instruction ∈ ir.instructions, P instruction) ↔
      (∀ other ∈ others ++ rest, ∀ instruction ∈ spendInstructions other.spends, P instruction) ∧
        ∀ instruction ∈ spend.instructions, P instruction := by
  have hspend : spendInstructions lowered.spends = spend.instructions := by
    rw [hspends]
    exact List.flatMap_singleton _ _
  rw [instructions_eq, List.forall_mem_flatMap, hcontracts, ← hspend]
  simp only [List.forall_mem_append, List.forall_mem_cons]
  constructor
  · intro h
    obtain ⟨hbefore, hcontract, hafter⟩ := h
    exact ⟨⟨hbefore, hafter⟩, hcontract⟩
  · intro h
    obtain ⟨⟨hbefore, hafter⟩, hcontract⟩ := h
    exact ⟨hbefore, hcontract, hafter⟩

/-- What the target asks of the instructions, one by one. -/
theorem compilesTo_isOk {ir : IrProgram} :
    (∃ bytecode, ir.CompilesTo target bytecode) ↔
      (∀ kip ∈ ir.kipRequirements, ∀ record, recordForKip kip = some record →
        record.Passes target) ∧
      (∀ instruction ∈ ir.instructions, isUnsupported instruction.kind = false) ∧
        ∀ instruction ∈ ir.instructions, ∃ code, encodeInstruction instruction = .ok code := by
  rw [← compileInstructionSequence_each]
  constructor
  · intro h
    obtain ⟨bytecode, hcompiles⟩ := h
    exact ⟨hcompiles.kips, hcompiles.grounded, bytecode, hcompiles.encoded⟩
  · intro h
    obtain ⟨hkips, hgrounded, bytecode, hencoded⟩ := h
    exact ⟨bytecode, hkips, hgrounded, hencoded⟩

/-- What encodes after the instantiation encoded before it. -/
theorem encodes_of_instantiated {contract : ArtifactContract} {spend : ArtifactSpend}
    {spendName : String} {code transformed : List Instruction} {script : Bytes}
    (htransformed : instantiateFrom lib contract spend spendName bindings none code =
      .ok transformed)
    (hscript : compileSpendScript transformed = .ok script) {instruction : Instruction}
    (hmem : instruction ∈ code) :
    (∃ name, instruction.kind = .push (.symbol name)) ∨
      ∃ bytes, encodeInstruction instruction = .ok bytes := by
  rcases mem_instantiateFrom htransformed hmem with hsymbol | hkept
  · exact .inl hsymbol
  · right
    unfold compileSpendScript at hscript
    by_cases hempty : transformed = []
    · rw [hempty] at hkept
      cases hkept
    · rw [if_neg hempty] at hscript
      obtain ⟨bytecode, hbytecode, _⟩ := bind_eq_ok.mp hscript
      exact compileInstructionSequence_each.mp ⟨_, hbytecode⟩ instruction hkept

/-- Where the instantiation goes through, the target takes both programs or neither. -/
theorem compiles_substituted {ir ir' : IrProgram} {others rest : List IrContract}
    {lowered lowered' : IrContract} {spend spend' : IrSpend}
    (hsub : ProgramSubstituted p literal others rest lowered lowered' ir ir')
    (hspends : lowered.spends = [spend]) (hspends' : lowered'.spends = [spend'])
    (hcode : Substituted p literal spend.instructions spend'.instructions)
    (hp : (utf8Bytes p).length ≤ u32Max) {contract : ArtifactContract} {found : ArtifactSpend}
    {spendName : String} {transformed : List Instruction} {script : Bytes}
    (htransformed : instantiateFrom lib contract found spendName bindings none
      spend'.instructions = .ok transformed)
    (hscript : compileSpendScript transformed = .ok script) :
    (∃ bytecode, ir.CompilesTo target bytecode) ↔ ∃ bytecode, ir'.CompilesTo target bytecode := by
  rw [compilesTo_isOk, compilesTo_isOk, hsub.kips]
  simp only [forall_instructions hsub.contracts hspends,
    forall_instructions hsub.contracts' hspends', hcode.supported]
  constructor
  · intro h
    obtain ⟨hkips, hgrounded, hothers, hspend⟩ := h
    refine ⟨hkips, hgrounded, hothers, ?_⟩
    intro instruction hmem
    rcases encodes_of_instantiated htransformed hscript hmem with ⟨name, hname⟩ | hencodes
    · exact hspend instruction (hcode.symbol hmem hname)
    · exact hencodes
  · intro h
    obtain ⟨hkips, hgrounded, hothers, hspend⟩ := h
    exact ⟨hkips, hgrounded, hothers, hcode.encodes hp hspend⟩

end

/-- A contract's parameter, and a binding of it that can be written as a literal. -/
structure Contract.BindsLiteral (contract : Contract) (param : Param) (literal : Literal)
    (bindings : Bindings) : Prop where
  declared : param ∈ contract.params
  plain : IsPlainName param.name.name
  never_head : ∀ spend ∈ contract.spends, ∀ stmt ∈ spend.body,
    NeverHead param.name.name stmt.expr
  fits : literal.Fits param.ty
  bound : bindings.lookup param.name.name = some literal.paramValue

section

variable {source file : String} {before after : List Contract} {contract : Contract}
  {param : Param} {literal : Literal} {bindings : Bindings}

/-- No spend of an accepted contract takes the parameter's name again. -/
theorem unshadowed_lowered (haccepted : ProgramAccepted ⟨before ++ contract :: after⟩ source file)
    (hbinds : contract.BindsLiteral param literal bindings) {lowered : IrContract}
    (hlower : lowerContract file contract = .ok lowered) :
    ∀ spend ∈ lowered.spends, param.name.name ∉ spend.params.map IrParam.name := by
  intro spend hspend hparam
  obtain ⟨_, _, hspends⟩ := lowerContract_eq_ok hlower
  obtain ⟨declared, hmem, hdeclared⟩ := Library.exists_of_mem_mapM hspends hspend
  obtain ⟨_, hparams, _⟩ := lowerSpend_eq_ok hdeclared
  have hnames : spend.params.map IrParam.name = paramNames declared.params := by
    rw [hparams]
    simp [lowerParams, paramNames, Function.comp_def]
  rw [hnames] at hparam
  have hcontract : contract ∈ (⟨before ++ contract :: after⟩ : Program).contracts := by simp
  have hunshadowed := ((haccepted.contract contract hcontract).spend declared hmem).unshadowed
  exact hunshadowed _ hparam (List.mem_map_of_mem hbinds.declared)

/-- Instantiation finds the contract in either artifact. -/
theorem findContract_substituted {others rest : List IrContract} {lowered lowered' : IrContract}
    {ir ir' : IrProgram} {source' version : String} {sha256 : Bytes → Bytes} {target : Target}
    (hfirst : ∀ other ∈ before, eqIgnoreAsciiCase other.name.name contract.name.name = false)
    (hothers : before.mapM (lowerContract file) = .ok others)
    (hlower : lowerContract file contract = .ok lowered)
    (hsub : ProgramSubstituted param.name.name literal others rest lowered lowered' ir ir') :
    (∀ bytecode, findContract (assembledArtifact sha256 source version target ir bytecode)
        contract.name.name = .ok (artifactContract lowered)) ∧
      ∀ bytecode, findContract (assembledArtifact sha256 source' version target ir' bytecode)
        contract.name.name = .ok (artifactContract lowered') := by
  have hname : (artifactContract lowered).name = contract.name.name :=
    (lowerContract_eq_ok hlower).1
  have hname' : (artifactContract lowered').name = contract.name.name :=
    hsub.contract.name.trans hname
  have hunmatched : ∀ other ∈ others.map artifactContract,
      eqIgnoreAsciiCase other.name contract.name.name = false := by
    intro other hother
    obtain ⟨irContract, hirContract, rfl⟩ := List.mem_map.mp hother
    obtain ⟨earlier, hearlier, hlowered⟩ := Library.exists_of_mem_mapM hothers hirContract
    have hearlierName : (artifactContract irContract).name = earlier.name.name :=
      (lowerContract_eq_ok hlowered).1
    rw [hearlierName]
    exact hfirst earlier hearlier
  constructor
  · intro bytecode
    have hcontracts : (assembledArtifact sha256 source version target ir bytecode).contracts =
        others.map artifactContract ++ artifactContract lowered :: rest.map artifactContract := by
      simp [assembledArtifact, hsub.contracts]
    rw [← hname] at hunmatched ⊢
    exact findContract_of_unmatched hcontracts hunmatched
  · intro bytecode
    have hcontracts : (assembledArtifact sha256 source' version target ir' bytecode).contracts =
        others.map artifactContract ++ artifactContract lowered' :: rest.map artifactContract := by
      simp [assembledArtifact, hsub.contracts']
    rw [← hname'] at hunmatched ⊢
    exact findContract_of_unmatched hcontracts hunmatched

/-- Instantiating the contract of either program gives the same. -/
theorem boundScript_substituted {lib : ScriptLib} {version source' : String} {target : Target}
    {network : TestnetTarget}
    (haccepted : ProgramAccepted ⟨before ++ contract :: after⟩ source file)
    (hbinds : contract.BindsLiteral param literal bindings)
    (hname : (utf8Bytes param.name.name).length ≤ u32Max)
    (hfirst : ∀ other ∈ before, eqIgnoreAsciiCase other.name.name contract.name.name = false)
    (spendName : String) :
    boundScript lib source file version target ⟨before ++ contract :: after⟩ contract.name.name
        spendName bindings network =
      boundScript lib source' file version target
        ⟨before ++ contract.substitute param.name.name literal :: after⟩ contract.name.name
        spendName bindings network := by
  have halike := @substitutes_program param.name.name literal hbinds.plain before after contract
    source file haccepted hbinds.never_head
  cases hir : lowerProgram ⟨before ++ contract :: after⟩
      (collectKipRequirements ⟨before ++ contract :: after⟩) file with
  | error error =>
    cases hir' : lowerProgram ⟨before ++ contract.substitute param.name.name literal :: after⟩
        (collectKipRequirements
          ⟨before ++ contract.substitute param.name.name literal :: after⟩) file with
    | error error' =>
      unfold boundScript
      rw [hir, hir']
      rfl
    | ok ir' =>
      rw [hir, hir'] at halike
      cases halike
  | ok ir =>
    obtain ⟨ir', hir'⟩ := halike.isOk.mp ⟨ir, hir⟩
    obtain ⟨others, rest, lowered, lowered', hothers, hlower, hsub⟩ := halike.of_ok hir hir'
    obtain ⟨hfound, hfound'⟩ := @findContract_substituted source file before contract param literal
      others rest lowered lowered' ir ir' source' version lib.sha256 target hfirst hothers hlower
      hsub
    have hcontract : contract ∈ (⟨before ++ contract :: after⟩ : Program).contracts := by simp
    have hty : paramType (artifactParams lowered.params) param.name.name = some param.ty := by
      rw [(lowerContract_eq_ok hlower).2.1]
      exact paramType_of_declared (haccepted.contract contract hcontract).params hbinds.declared
    have hinstantiate (bytecode bytecode' : Bytes) :
        instantiatedScript lib (assembledArtifact lib.sha256 source version target ir bytecode)
            contract.name.name spendName bindings network =
          instantiatedScript lib
            (assembledArtifact lib.sha256 source' version target ir' bytecode')
            contract.name.name spendName bindings network :=
      instantiate_substituted hsub.contract (hfound bytecode) (hfound' bytecode')
        (unshadowed_lowered haccepted hbinds hlower) hty hbinds.fits hbinds.bound spendName
    -- an instantiation that goes through has encoded the literal
    have hcompiles {result : Bytes × String × Address} {bytecode' : Bytes}
        (h : instantiatedScript lib
          (assembledArtifact lib.sha256 source' version target ir' bytecode')
          contract.name.name spendName bindings network = some result) :
        (∃ bytecode, ir.CompilesTo target bytecode) ↔
          ∃ bytecode, ir'.CompilesTo target bytecode := by
      obtain ⟨_, spend, transformed, _, hcontract', hsingle, hspend, _, htransformed, hscript, _⟩ :=
        instantiatedScript_iff.mp h
      obtain rfl := Except.ok.inj ((hfound' bytecode').symm.trans hcontract')
      obtain ⟨irSpend', hspends'⟩ : ∃ irSpend', lowered'.spends = [irSpend'] := by
        apply List.length_eq_one_iff.mp
        simpa [artifactContract] using hsingle
      have hforall := hsub.contract.spends
      rw [hspends', List.forall₂_cons_right_iff] at hforall
      obtain ⟨irSpend, _, hsame, hnil, hspends⟩ := hforall
      rw [List.forall₂_nil_right_iff] at hnil
      subst hnil
      have hartifact : (artifactContract lowered').spends = [artifactSpend irSpend'] := by
        simp [artifactContract, hspends']
      obtain ⟨_, rfl⟩ := (findSpend_single hartifact spend).mp hspend
      exact compiles_substituted hsub hspends hspends' hsame.instructions hname htransformed hscript
    ext result
    rw [boundScript_iff, boundScript_iff]
    constructor
    · intro h
      obtain ⟨_, bytecode, hsame, hbytecode, hresult⟩ := h
      obtain rfl := Except.ok.inj (hir.symm.trans hsame)
      have hresult' (bytecode' : Bytes) := (hinstantiate bytecode bytecode').symm.trans hresult
      obtain ⟨bytecode', hbytecode'⟩ := (hcompiles (hresult' [])).mp ⟨bytecode, hbytecode⟩
      exact ⟨ir', bytecode', hir', hbytecode', hresult' bytecode'⟩
    · intro h
      obtain ⟨_, bytecode', hsame, hbytecode', hresult'⟩ := h
      obtain rfl := Except.ok.inj (hir'.symm.trans hsame)
      obtain ⟨bytecode, hbytecode⟩ := (hcompiles hresult').mpr ⟨bytecode', hbytecode'⟩
      exact ⟨ir, bytecode, hir, hbytecode, (hinstantiate bytecode bytecode').trans hresult'⟩

end

/-- Binding a parameter equals writing the literal in the spends' bodies: the lowering fails on both
programs or on neither, and compiling and instantiating the contract gives the same redeem script,
locking script hash and address, or fails for both. -/
theorem binding_as_literal {source file : String} {before after : List Contract}
    {contract : Contract} {param : Param} {literal : Literal} {bindings : Bindings}
    {analysis : Analysis}
    (haccepted : analyzeProgram ⟨before ++ contract :: after⟩ source file = .ok analysis)
    (hbinds : contract.BindsLiteral param literal bindings)
    (hname : (utf8Bytes param.name.name).length ≤ u32Max)
    (hfirst : ∀ other ∈ before, eqIgnoreAsciiCase other.name.name contract.name.name = false) :
    ((∃ ir, lowerProgram ⟨before ++ contract :: after⟩
        (collectKipRequirements ⟨before ++ contract :: after⟩) file = .ok ir) ↔
      ∃ ir, lowerProgram ⟨before ++ contract.substitute param.name.name literal :: after⟩
        (collectKipRequirements ⟨before ++ contract.substitute param.name.name literal :: after⟩)
        file = .ok ir) ∧
    ∀ (lib : ScriptLib) (source' version : String) (target : Target) (spendName : String)
        (network : TestnetTarget),
      boundScript lib source file version target ⟨before ++ contract :: after⟩ contract.name.name
          spendName bindings network =
        boundScript lib source' file version target
          ⟨before ++ contract.substitute param.name.name literal :: after⟩ contract.name.name
          spendName bindings network := by
  obtain ⟨hprogram, _, _⟩ := accepted_of_analyzeProgram haccepted
  refine ⟨(substitutes_program hbinds.plain hprogram hbinds.never_head).isOk, ?_⟩
  intro lib source' version target spendName network
  exact boundScript_substituted hprogram hbinds hname hfirst spendName

/-- `contract Vault { params { until: BlockHeight } spend open() { .. } }`, which requires
`block.height >= until` -/
def untilContract : Contract :=
  ⟨nameAt "Vault", [⟨nameAt "until", .blockHeight, ⟨0, 0⟩⟩], none,
    [⟨nameAt "open", [], [.require
      (.binary (.field (.ident (nameAt "block")) (nameAt "height") ⟨0, 0⟩) .greaterEqual
        (.ident (nameAt "until")) ⟨0, 0⟩) ⟨0, 0⟩], ⟨0, 0⟩⟩], ⟨0, 0⟩⟩

/-- A bound height gives the bytes of the written height, though the checks of the two are
different instructions. -/
theorem binding_as_literal_until :
    (lowerContract "vault.ks" untilContract).toOption.map (fun contract =>
        kinds (spendInstructions contract.spends)) =
      some [.push (.symbol "until"), .checkLockHeightFromStack, .verify] ∧
    (lowerContract "vault.ks" (untilContract.substitute "until" (.integer 500))).toOption.map
        (fun contract => kinds (spendInstructions contract.spends)) =
      some [.checkLockHeight 500, .verify] ∧
    boundScript flatLib.toScriptLib "" "vault.ks" "" .verifiedTn12 ⟨[untilContract]⟩ "Vault" "open"
        [("until", .integer 500)] .tn10 =
      boundScript flatLib.toScriptLib "" "vault.ks" "" .verifiedTn12
        ⟨[untilContract.substitute "until" (.integer 500)]⟩ "Vault" "open"
        [("until", .integer 500)] .tn10 := by
  have hbinds : untilContract.BindsLiteral ⟨nameAt "until", .blockHeight, ⟨0, 0⟩⟩ (.integer 500)
      [("until", .integer 500)] := by
    refine ⟨by simp [untilContract], ?_, ?_, .inr rfl, rfl⟩
    · simp [IsPlainName, builtinNames, builtinCallNames, nameAt]
    · simp [untilContract, NeverHead, Stmt.expr, Expr.nodes, Expr.headName, nameAt]
  have hbinding := @binding_as_literal "" "vault.ks" [] [] untilContract _ _ _ _ rfl hbinds
    (by decide) (by simp)
  exact ⟨rfl, rfl, hbinding.2 flatLib.toScriptLib "" "" .verifiedTn12 "open" .tn10⟩

/-- `contract Bound { params { p: Amount } spend open() { require 1 <= p; } }` -/
def boundContract (p : String) : Contract :=
  ⟨nameAt "Bound", [⟨nameAt p, .amount, ⟨0, 0⟩⟩], none,
    [⟨nameAt "open", [], [.require
      (.binary (.integer 1 ⟨0, 0⟩) .lessEqual (.ident (nameAt p)) ⟨0, 0⟩) ⟨0, 0⟩], ⟨0, 0⟩⟩], ⟨0, 0⟩⟩

/-- No builtin has a name too long to push. -/
theorem isPlainName_of_long {p : String} (hlong : u32Max < (utf8Bytes p).length) : IsPlainName p := by
  have hshort : ∀ name ∈ builtinNames ++ builtinCallNames, (utf8Bytes name).length ≤ u32Max := by
    decide +kernel
  constructor
  · intro hp
    exact absurd (hshort p (List.mem_append_left _ hp)) (by omega)
  · intro hp
    exact absurd (hshort p (List.mem_append_right _ hp)) (by omega)

/-- A plain name that is declared has its declared type. -/
theorem inferIdentifier_plain {cx : Checker} {scope : Scope} {id : Ident}
    (hplain : IsPlainName id.name) (hspend : id.name ∉ cx.spendNames) {ty : TypeName}
    (hty : scope.get id.name = some ty) : cx.inferIdentifier id scope = pure (some ty) := by
  unfold Checker.inferIdentifier
  rw [if_neg hspend]
  split <;> simp_all [IsPlainName, builtinCallNames, builtinNames]

theorem accepts_boundContract {p : String} (hp : IsPlainName p) (hopen : p ≠ "open") :
    ∃ analysis, analyzeProgram ⟨[boundContract p]⟩ "" "bound.ks" = .ok analysis := by
  have hcovenant : p ≠ "covenant_id" := by
    intro h
    exact hp.1 (by rw [h]; decide)
  have hinfer : (⟨"", "bound.ks", ["open"]⟩ : Checker).inferIdentifier ⟨p, ⟨0, 0⟩⟩
      ⟨[(p, .amount)]⟩ = pure (some .amount) := by
    apply inferIdentifier_plain hp
    · simpa using hopen
    · simp [Scope.get]
  rw [analyzeProgram_isOk]
  simp [boundContract, nameAt, Checker.checkContract, Checker.checkContractParams,
    Checker.checkSpends, Checker.checkSpend, Checker.checkSpendParams, Checker.checkStmts,
    Checker.checkStmt, Checker.inferExpr, Checker.collectExactCountsFromConjunction,
    Checker.exactCountConstraint, Checker.collectContinuationNames, Checker.collectIndexReferences,
    Checker.checkShapeFacts, Checker.checkCountFacts, Checker.spendUsesName, Checker.exprUsesName,
    Stmt.expr, Scope.new, Scope.insert, Scope.get, Scope.contains, hinfer, hcovenant]

/-- The code of that contract, with what it pushes for the parameter. -/
def boundIr (p : String) (value : Value) : List IrContract :=
  [⟨"Bound", [⟨p, .amount⟩], none, [⟨"open", [],
    [⟨⟨0, 0⟩, .push (.integer 1)⟩, ⟨⟨0, 0⟩, .push value⟩, ⟨⟨0, 0⟩, .lessThanOrEqual⟩,
      ⟨⟨0, 0⟩, .verify⟩]⟩]⟩]

theorem lowers_boundContract {p : String} (hp : IsPlainName p) :
    ∃ kips application, lowerProgram ⟨[boundContract p]⟩
        (collectKipRequirements ⟨[boundContract p]⟩) "bound.ks" =
      .ok ⟨boundIr p (.symbol p), kips, application⟩ := by
  refine ⟨collectKipRequirements ⟨[boundContract p]⟩, buildApplicationModel ⟨[boundContract p]⟩,
    ?_⟩
  have hlower : lowerExpr "bound.ks" (.ident (nameAt p)) =
      .ok (emit ⟨0, 0⟩ (.push (.symbol p))) := lowerExpr_plainName hp
  have hbody : lowerExpr "bound.ks" (.binary (.integer 1 ⟨0, 0⟩) .lessEqual (.ident (nameAt p))
      ⟨0, 0⟩) = .ok [⟨⟨0, 0⟩, .push (.integer 1)⟩, ⟨⟨0, 0⟩, .push (.symbol p)⟩,
        ⟨⟨0, 0⟩, .lessThanOrEqual⟩] := by
    rw [lowerExpr, lowerBinary, hlower]
    rfl
  unfold lowerProgram
  simp only [List.mapM_cons, List.mapM_nil, lowerContract, boundContract, lowerSpend, List.map_cons,
    List.map_nil, lowerStmt, hbody]
  rfl

theorem substitute_boundContract (p : String) (n : Nat) :
    (boundContract p).substitute p (.integer n) =
      ⟨nameAt "Bound", [⟨nameAt p, .amount, ⟨0, 0⟩⟩], none,
        [⟨nameAt "open", [], [.require
          (.binary (.integer 1 ⟨0, 0⟩) .lessEqual (.integer n ⟨0, 0⟩) ⟨0, 0⟩) ⟨0, 0⟩], ⟨0, 0⟩⟩],
        ⟨0, 0⟩⟩ := by
  simp [boundContract, Contract.substitute, Spend.substitute, Stmt.substitute, Expr.substitute,
    nameAt, Literal.expr]

theorem boundScript_literal (p : String) : ∃ result,
    boundScript flatLib.toScriptLib "" "bound.ks" "" .verifiedTn12
      ⟨[(boundContract p).substitute p (.integer 7)]⟩ "Bound" "open" [(p, .integer 7)]
      .tn10 = some result := by
  rw [substitute_boundContract]
  have hvalid : validateParamBindings [⟨p, .amount⟩] [(p, .integer 7)] = .ok () := by
    simp [validateParamBindings]
    rfl
  have hground : ∀ instruction ∈ IrProgram.instructions ⟨boundIr p (.integer 7), [],
      buildApplicationModel ⟨[(boundContract p).substitute p (.integer 7)]⟩⟩,
      isUnsupported instruction.kind = false := by
    simp [IrProgram.instructions, boundIr, spendInstructions, isUnsupported]
  rw [substitute_boundContract] at hground
  have hkips : ∀ kip ∈ ([] : List Nat), ∀ record, recordForKip kip = some record →
      record.Passes .verifiedTn12 := by simp
  let script : Bytes := [81, 87, 161, 105, 81]
  let locking := flatLib.payToScriptHashScript script
  refine ⟨(script, sha256Hex flatLib.toScriptLib locking.script,
    ⟨.testnet, .scriptHash, locking.script⟩), boundScript_iff.mpr ⟨_, [81, 87, 161, 105], rfl,
    ⟨hkips, hground, rfl⟩, instantiatedScript_iff.mpr
      ⟨_, _, _, _, rfl, rfl, rfl, hvalid, rfl, rfl, rfl, rfl, rfl⟩⟩⟩

theorem boundScript_long {p : String} (hp : IsPlainName p)
    (hlong : u32Max < (utf8Bytes p).length) :
    boundScript flatLib.toScriptLib "" "bound.ks" "" .verifiedTn12 ⟨[boundContract p]⟩ "Bound"
      "open" [(p, .integer 7)] .tn10 = none := by
  rw [Option.eq_none_iff_forall_ne_some]
  intro result hresult
  obtain ⟨ir, bytecode, hir, hcompiles, _⟩ := boundScript_iff.mp hresult
  obtain ⟨kips, application, hlower⟩ := lowers_boundContract hp
  obtain rfl := Except.ok.inj (hlower.symm.trans hir)
  have hmem : (⟨⟨0, 0⟩, .push (.symbol p)⟩ : Instruction) ∈
      IrProgram.instructions ⟨boundIr p (.symbol p), kips, application⟩ := by
    simp [IrProgram.instructions, boundIr, spendInstructions]
  obtain ⟨code, hcode⟩ := compileInstructionSequence_each.mp ⟨_, hcompiles.encoded⟩ _ hmem
  have hencode : encodeInstruction ⟨⟨0, 0⟩, .push (.symbol p)⟩ = encodeData (utf8Bytes p) ⟨0, 0⟩ :=
    rfl
  have hmax : u32Max = 4294967295 := rfl
  rw [hencode, encodeData, if_neg (by omega), if_neg (by omega), if_neg (by omega),
    if_neg (by omega)] at hcode
  cases hcode

theorem length_utf8Bytes_replicate (n : Nat) :
    (utf8Bytes (String.ofList (List.replicate n 'a'))).length = n := by
  have hone : String.utf8EncodeChar 'a' = [97] := by decide
  unfold utf8Bytes
  rw [String.toList_ofList]
  induction n with
  | zero => rfl
  | succ n ih =>
    rw [List.replicate_succ, List.flatMap_cons, List.length_append, ih, hone, Nat.add_comm]
    rfl

theorem boundContract_of_long {p : String} (hlong : u32Max < (utf8Bytes p).length) :
    (∃ analysis, analyzeProgram ⟨[boundContract p]⟩ "" "bound.ks" = .ok analysis) ∧
    (boundContract p).BindsLiteral ⟨nameAt p, .amount, ⟨0, 0⟩⟩ (.integer 7) [(p, .integer 7)] ∧
    boundScript flatLib.toScriptLib "" "bound.ks" "" .verifiedTn12 ⟨[boundContract p]⟩
      "Bound" "open" [(p, .integer 7)] .tn10 = none ∧
    ∃ result, boundScript flatLib.toScriptLib "" "bound.ks" "" .verifiedTn12
      ⟨[(boundContract p).substitute p (.integer 7)]⟩ "Bound" "open" [(p, .integer 7)] .tn10 =
        some result := by
  have hplain := isPlainName_of_long hlong
  have hopen : p ≠ "open" := by
    intro h
    rw [h] at hlong
    exact absurd hlong (by decide +kernel)
  refine ⟨accepts_boundContract hplain hopen, ⟨?_, hplain, ?_, .inl rfl, ?_⟩,
    boundScript_long hplain hlong, boundScript_literal p⟩
  · exact List.mem_singleton_self _
  · simp [boundContract, NeverHead, Stmt.expr, Expr.nodes, Expr.headName]
  · simp [nameAt, Literal.paramValue]

/-- A name of 2 ^ 32 letters. -/
def longName : String := String.ofList (List.replicate (u32Max + 1) 'a')

/-- A name too long to push keeps the program with the parameter from compiling, and not the one
with the literal. -/
theorem binding_as_literal_longName :
    (∃ analysis, analyzeProgram ⟨[boundContract longName]⟩ "" "bound.ks" = .ok analysis) ∧
    (boundContract longName).BindsLiteral ⟨nameAt longName, .amount, ⟨0, 0⟩⟩ (.integer 7)
      [(longName, .integer 7)] ∧
    boundScript flatLib.toScriptLib "" "bound.ks" "" .verifiedTn12 ⟨[boundContract longName]⟩
      "Bound" "open" [(longName, .integer 7)] .tn10 = none ∧
    ∃ result, boundScript flatLib.toScriptLib "" "bound.ks" "" .verifiedTn12
      ⟨[(boundContract longName).substitute longName (.integer 7)]⟩ "Bound" "open"
      [(longName, .integer 7)] .tn10 = some result := by
  have hlong : u32Max < (utf8Bytes longName).length := by
    have hlength : (utf8Bytes longName).length = u32Max + 1 := length_utf8Bytes_replicate _
    omega
  exact boundContract_of_long hlong

end KaspaScript
