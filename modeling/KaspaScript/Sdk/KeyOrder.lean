import KaspaScript.Ir.Swapped
import KaspaScript.Sdk.Literal

namespace KaspaScript

open Checker (paramNames)
open Library (bind_eq_ok pure_eq_ok run_append run_cons)
open Library.ScriptNum (encode)
open Testnet (flatLib)

def isEquation : InstructionKind → Bool
  | .equal | .notEqual => true
  | _ => false

/-- The instruction between these is compared with a script read directly before or after it. -/
def comparedWithScript (previous : Option InstructionKind) (rest : List InstructionKind) : Bool :=
  (previous.any isScriptRead && rest.head?.any isEquation) ||
    (rest.head?.any isScriptRead && rest[1]?.any isEquation)

/-- In an equality with a script read the other operand is compared with it, in either order. -/
theorem comparedWithScript_equality {read : InstructionKind} (h : ReadsScript read)
    (previous : Option InstructionKind) (rest : List InstructionKind) :
    comparedWithScript (some read) (.equal :: rest) = true ∧
      comparedWithScript previous (read :: .equal :: rest) = true := by
  obtain ⟨index, rfl | rfl⟩ := h <;> simp [comparedWithScript, isScriptRead, isEquation]

/-- What holds at every place of some code, of the instruction before, the one there and those
after it. -/
def Everywhere
    (P : Option InstructionKind → InstructionKind → List InstructionKind → Prop) :
    Option InstructionKind → List InstructionKind → Prop
  | _, [] => True
  | previous, kind :: rest => P previous kind rest ∧ Everywhere P (some kind) rest

theorem everywhere_congr
    {P Q : Option InstructionKind → InstructionKind → List InstructionKind → Prop}
    (h : ∀ previous kind rest, P previous kind rest ↔ Q previous kind rest)
    (previous : Option InstructionKind) (code : List InstructionKind) :
    Everywhere P previous code ↔ Everywhere Q previous code := by
  induction code generalizing previous with
  | nil => exact Iff.rfl
  | cons kind rest ih => rw [Everywhere, Everywhere, h, ih]

/-- A public key among the parameters of a contract. -/
def KeyParam (contract : Contract) (name : String) : Prop :=
  ∃ param ∈ contract.params, param.name.name = name ∧ param.ty = .publicKey

section

variable (lib : ScriptLib)

/-- The bytes of the script that pays to a key. -/
def keyScript (key : Bytes) : Bytes :=
  spkBytes (lib.payToAddressScript ⟨.testnet, .pubKey, key⟩)

/-- A key is bound as its script where it is compared with one, and everywhere else as it is. -/
def EncodedAt (contract : ArtifactContract) (spend : ArtifactSpend) (spendName : String)
    (bindings : Bindings) (IsKey : String → Prop) (previous : Option InstructionKind)
    (kind : InstructionKind) (rest : List InstructionKind) : Prop :=
  ∀ name key, kind = .push (.symbol name) → IsKey name →
    bindings.lookup name = some (.publicKey key) →
    instantiateKind lib contract spend spendName bindings previous kind =
      .ok [.push (.bytes (if comparedWithScript previous rest then keyScript lib key else key))]

/-- Every key of a contract is pushed where its name is lowered, in the right encoding. -/
structure KeysRight (file : String) (contract : Contract) (lowered : IrContract)
    (spendName : String) (bindings : Bindings) : Prop where
  pushed : ∀ spend ∈ contract.spends, ∀ stmt ∈ spend.body, ∀ use ∈ stmt.expr.uses,
    use.lowered = true → KeyParam contract use.id.name →
      lowerExpr file (.ident use.id) = .ok (emit use.id.span (.push (.symbol use.id.name)))
  encoded : ∀ spend ∈ lowered.spends,
    Everywhere (EncodedAt lib (artifactContract lowered) (artifactSpend spend) spendName bindings
      (KeyParam contract)) none (kinds spend.instructions)

end

/-- A key stands directly behind a script read exactly where it is compared with one. -/
def InOrderAt (IsKey : String → Prop) (previous : Option InstructionKind) (kind : InstructionKind)
    (rest : List InstructionKind) : Prop :=
  ∀ name, kind = .push (.symbol name) → IsKey name →
    previous.any isScriptRead = comparedWithScript previous rest

/-- No key has the name of a count where it is lowered, and all stand in order. -/
structure KeysInOrder (contract : Contract) (lowered : IrContract) : Prop where
  named : ∀ spend ∈ contract.spends, ∀ stmt ∈ spend.body, ∀ use ∈ stmt.expr.uses,
    use.lowered = true → KeyParam contract use.id.name →
      use.id.name ≠ "input_count" ∧ use.id.name ≠ "output_count"
  ordered : ∀ spend ∈ lowered.spends,
    Everywhere (InOrderAt (KeyParam contract)) none (kinds spend.instructions)

section

variable {lib : ScriptLib} {contract contract' : ArtifactContract} {spend spend' : ArtifactSpend}
  {spendName : String} {bindings : Bindings} {IsKey : String → Prop}

/-- The names of keys that instantiation binds to 32 bytes. -/
structure BindsKeys (contract : ArtifactContract) (spend : ArtifactSpend) (bindings : Bindings)
    (IsKey : String → Prop) : Prop where
  fresh : ∀ name, IsKey name → name ∉ spend.params.map ArtifactParam.name
  typed : ∀ name, IsKey name → paramType contract.params name = some .publicKey
  bound : ∀ name, IsKey name → ∃ key, bindings.lookup name = some (.publicKey key) ∧
    key.length = 32

theorem instantiateKind_key (h : BindsKeys contract spend bindings IsKey) {name : String}
    (hname : IsKey name) {key : Bytes} (hkey : bindings.lookup name = some (.publicKey key))
    (previous : Option InstructionKind) :
    instantiateKind lib contract spend spendName bindings previous (.push (.symbol name)) =
      .ok [.push (.bytes (if previous.any isScriptRead then keyScript lib key else key))] := by
  simp only [instantiateKind, if_neg (h.fresh name hname), h.typed name hname, hkey]
  cases previous.any isScriptRead <;> rfl

/-- A key's script is longer than the key. -/
theorem keyScript_ne {key : Bytes} (hkey : key.length = 32)
    (hscript : lib.payToAddressScript ⟨.testnet, .pubKey, key⟩ = ⟨0, 0x20 :: key ++ [0xac]⟩) :
    keyScript lib key ≠ key := by
  intro heq
  have hlength := congrArg List.length heq
  simp [keyScript, hscript, spkBytes, hkey] at hlength

theorem encodedAt_iff (h : BindsKeys contract spend bindings IsKey)
    (hscript : ∀ key : Bytes, key.length = 32 →
      lib.payToAddressScript ⟨.testnet, .pubKey, key⟩ = ⟨0, 0x20 :: key ++ [0xac]⟩)
    (previous : Option InstructionKind) (kind : InstructionKind) (rest : List InstructionKind) :
    EncodedAt lib contract spend spendName bindings IsKey previous kind rest ↔
      InOrderAt IsKey previous kind rest := by
  constructor
  · intro hencoded name hkind hname
    obtain ⟨key, hkey, hlength⟩ := h.bound name hname
    have hne := keyScript_ne hlength (hscript key hlength)
    have hplace := hencoded name key hkind hname hkey
    rw [hkind, instantiateKind_key h hname hkey] at hplace
    cases hread : previous.any isScriptRead <;>
      cases hcompared : comparedWithScript previous rest <;> simp_all [hne.symm]
  · intro hordered name key hkind hname hkey
    rw [hkind, instantiateKind_key h hname hkey, hordered name hkind hname]

/-- The opcodes push one value, whatever is on the stack, or fail. -/
def PushesOne (env : ScriptEnv) (ops : List Opcode) : Prop :=
  ∃ value : Option Bytes, ∀ stack, runOpcodes env ops stack = value.map (· :: stack)

theorem pushesOne_bytes (env : ScriptEnv) (key : Bytes) :
    PushesOne env (opcodes (.push (.bytes key))) := by
  simp only [opcodes, pushOpcode, dataPush]
  split_ifs
  · exact ⟨none, fun _ => rfl⟩
  · exact ⟨some key, fun _ => rfl⟩

theorem pushesOne_count {env : ScriptEnv} {kind : InstructionKind}
    (h : kind = .inputCount ∨ kind = .outputCount) : PushesOne env (opcodes kind) := by
  have hnum (n : Int) :
      ∃ value : Option Bytes, ∀ stack, pushNum n stack = value.map (· :: stack) := by
    by_cases hfits : NumFits n
    · exact ⟨some (encode n), fun stack => if_pos hfits⟩
    · exact ⟨none, fun stack => if_neg hfits⟩
  rcases h with rfl | rfl
  · obtain ⟨value, hvalue⟩ := hnum env.populated.tx.inputs.length
    exact ⟨value, fun stack => (Library.run_singleton _ _).trans (hvalue stack)⟩
  · obtain ⟨value, hvalue⟩ := hnum env.populated.tx.outputs.length
    exact ⟨value, fun stack => (Library.run_singleton _ _).trans (hvalue stack)⟩

theorem pushesOne_read {env : ScriptEnv} {kind : InstructionKind} (h : ReadsScript kind) :
    PushesOne env (opcodes kind) := by
  obtain ⟨index, rfl | rfl⟩ := h
  · refine ⟨(readIndex env.populated.entries (encode index)).map fun entry =>
      spkBytes entry.scriptPublicKey, ?_⟩
    intro stack
    rw [opcodes, runOpcodes, run_cons, execOpcode, Option.bind_some, Library.run_singleton,
      execOpcode, Option.map_map]
    rfl
  · refine ⟨(readIndex env.populated.tx.outputs (encode index)).map fun output =>
      spkBytes output.scriptPublicKey, ?_⟩
    intro stack
    rw [opcodes, runOpcodes, run_cons, execOpcode, Option.bind_some, Library.run_singleton,
      execOpcode, Option.map_map]
    rfl

/-- Equality does not ask which operand was pushed first. -/
theorem run_equal_comm {env : ScriptEnv} {a b : List Opcode} (ha : PushesOne env a)
    (hb : PushesOne env b) (stack : Stack) :
    runOpcodes env (a ++ b ++ [.equal]) stack = runOpcodes env (b ++ a ++ [.equal]) stack := by
  obtain ⟨va, hva⟩ := ha
  obtain ⟨vb, hvb⟩ := hb
  simp only [runOpcodes] at hva hvb
  simp only [runOpcodes, run_append, hva, hvb, Library.run_singleton]
  cases va <;> cases vb <;> simp [execOpcode, Bool.beq_comm]

theorem instantiateFrom_cons_eq_ok {previous : Option InstructionKind} {instruction : Instruction}
    {rest bound : List Instruction} :
    instantiateFrom lib contract spend spendName bindings previous (instruction :: rest) =
        .ok bound ↔
      ∃ first others, instantiateKind lib contract spend spendName bindings previous
          instruction.kind = .ok first ∧
        instantiateFrom lib contract spend spendName bindings (some instruction.kind) rest =
          .ok others ∧ bound = first.map (Instruction.mk instruction.span) ++ others := by
  rw [instantiateFrom]
  simp only [bind_eq_ok, pure_eq_ok]
  constructor
  · intro h
    obtain ⟨first, hfirst, others, hothers, rfl⟩ := h
    exact ⟨first, others, hfirst, hothers, rfl⟩
  · intro h
    obtain ⟨first, others, hfirst, hothers, rfl⟩ := h
    exact ⟨first, hfirst, others, hothers, rfl⟩

theorem instantiateFrom_congr (hcontract : contract'.params = contract.params)
    (hspend : spend'.params = spend.params) (previous : Option InstructionKind)
    (code : List Instruction) :
    instantiateFrom lib contract' spend' spendName bindings previous code =
      instantiateFrom lib contract spend spendName bindings previous code := by
  induction code generalizing previous with
  | nil => rfl
  | cons instruction rest ih =>
    rw [instantiateFrom, instantiateFrom, instantiateKind_congr hcontract hspend rfl, ih]

/-- Directly behind a script read, or where no key is pushed, the bound instruction is the same
as behind the operand's own script. -/
theorem instantiateKind_operand (h : BindsKeys contract spend bindings IsKey)
    {key read : InstructionKind} (hpair : KeyAndRead IsKey key read)
    {previous : Option InstructionKind} (hprevious : ∀ name, key = .push (.symbol name) →
      IsKey name → previous.any isScriptRead = true) :
    ∃ bound, (∀ env, PushesOne env (opcodes bound)) ∧
      instantiateKind lib contract spend spendName bindings previous key = .ok [bound] ∧
      instantiateKind lib contract spend spendName bindings (some read) key = .ok [bound] := by
  obtain ⟨⟨name, hname, rfl⟩, hread⟩ := hpair
  by_cases hin : name = "input_count"
  · refine ⟨.inputCount, fun env => pushesOne_count (Or.inl rfl), ?_, ?_⟩ <;>
      simp [identKind, hin, instantiateKind]
  · by_cases hout : name = "output_count"
    · refine ⟨.outputCount, fun env => pushesOne_count (Or.inr rfl), ?_, ?_⟩ <;>
        simp [identKind, hout, instantiateKind]
    · have hsymbol := identKind_eq_symbol.mpr ⟨hin, hout⟩
      obtain ⟨data, hdata, _⟩ := h.bound name hname
      have hscript : (some read).any isScriptRead = true := by
        obtain ⟨index, rfl | rfl⟩ := hread <;> rfl
      have hbefore := hprevious name hsymbol hname
      refine ⟨.push (.bytes (keyScript lib data)), fun env => pushesOne_bytes env _, ?_, ?_⟩
      · rw [hsymbol, instantiateKind_key h hname hdata, hbefore, if_pos rfl]
      · rw [hsymbol, instantiateKind_key h hname hdata, hscript, if_pos rfl]

theorem instantiateKind_read {read : InstructionKind} (h : ReadsScript read)
    (previous : Option InstructionKind) :
    instantiateKind lib contract spend spendName bindings previous read = .ok [read] := by
  obtain ⟨index, rfl | rfl⟩ := h <;> rfl

/-- What is bound of an equality in the two orders, of which the first has the key in front. -/
theorem instantiateFrom_swapped (h : BindsKeys contract spend bindings IsKey)
    {previous : Option InstructionKind} {a b : Instruction} {span : Span}
    {code code' bound bound' : List Instruction} (hpair : KeyAndRead IsKey a.kind b.kind)
    (hordered : InOrderAt IsKey previous a.kind (b.kind :: .equal :: kinds code))
    (hbound : instantiateFrom lib contract spend spendName bindings previous
      (a :: b :: ⟨span, .equal⟩ :: code) = .ok bound)
    (hbound' : instantiateFrom lib contract spend spendName bindings previous
      (b :: a :: ⟨span, .equal⟩ :: code') = .ok bound') :
    ∃ operand others others', (∀ env, PushesOne env (opcodes operand)) ∧
      instantiateFrom lib contract spend spendName bindings (some .equal) code = .ok others ∧
      instantiateFrom lib contract spend spendName bindings (some .equal) code' = .ok others' ∧
      kinds bound = operand :: b.kind :: .equal :: kinds others ∧
      kinds bound' = b.kind :: operand :: .equal :: kinds others' := by
  have hprevious : ∀ name, a.kind = .push (.symbol name) → IsKey name →
      previous.any isScriptRead = true := by
    intro name hkind hname
    rw [hordered name hkind hname]
    exact (comparedWithScript_equality hpair.2 previous _).2
  obtain ⟨operand, hpushes, hfirst, hbehind⟩ :=
    @instantiateKind_operand lib contract spend spendName bindings IsKey h _ _ hpair _ hprevious
  have hequal (previous : Option InstructionKind) :
      instantiateKind lib contract spend spendName bindings previous .equal = .ok [.equal] := rfl
  simp only [instantiateFrom_cons_eq_ok, hfirst, hbehind, instantiateKind_read hpair.2, hequal,
    Except.ok.injEq] at hbound hbound'
  obtain ⟨_, _, rfl, ⟨_, _, rfl, ⟨_, others, rfl, hothers, rfl⟩, rfl⟩, rfl⟩ := hbound
  obtain ⟨_, _, rfl, ⟨_, _, rfl, ⟨_, others', rfl, hothers', rfl⟩, rfl⟩, rfl⟩ := hbound'
  exact ⟨operand, others, others', hpushes, hothers, hothers', rfl, rfl⟩

theorem run_append_congr {env : ScriptEnv} {a b c d : List Opcode} {stack : Stack}
    (h : runOpcodes env a stack = runOpcodes env b stack)
    (hrest : ∀ stack, runOpcodes env c stack = runOpcodes env d stack) :
    runOpcodes env (a ++ c) stack = runOpcodes env (b ++ d) stack := by
  have hrest' : runOpcodes env c = runOpcodes env d := funext hrest
  simp only [runOpcodes] at h hrest'
  simp only [runOpcodes, run_append, h, hrest']

/-- Bound code with swapped operands runs the same. -/
theorem run_swapped (h : BindsKeys contract spend bindings IsKey) {code code' : List Instruction}
    (hswap : SwapsCode IsKey code code') {previous : Option InstructionKind}
    {bound bound' : List Instruction}
    (hordered : Everywhere (InOrderAt IsKey) previous (kinds code))
    (hordered' : Everywhere (InOrderAt IsKey) previous (kinds code'))
    (hbound : instantiateFrom lib contract spend spendName bindings previous code = .ok bound)
    (hbound' : instantiateFrom lib contract spend spendName bindings previous code' = .ok bound')
    (env : ScriptEnv) (stack : Stack) :
    runOpcodes env ((kinds bound).flatMap opcodes) stack =
      runOpcodes env ((kinds bound').flatMap opcodes) stack := by
  induction hswap generalizing previous bound bound' stack with
  | nil =>
    obtain rfl := Except.ok.inj hbound
    obtain rfl := Except.ok.inj hbound'
    rfl
  | same instruction _ ih =>
    obtain ⟨first, others, hfirst, hothers, rfl⟩ := instantiateFrom_cons_eq_ok.mp hbound
    obtain ⟨first', others', hfirst', hothers', rfl⟩ := instantiateFrom_cons_eq_ok.mp hbound'
    obtain rfl := Except.ok.inj (hfirst.symm.trans hfirst')
    rw [kinds_append, kinds_append, List.flatMap_append, List.flatMap_append]
    apply run_append_congr rfl
    intro stack'
    exact ih hordered.2 hordered'.2 hothers hothers' stack'
  | @swap a b code code' span hpair _ ih =>
    have hrun {operand read : InstructionKind} {others others' : List InstructionKind}
        (hoperand : PushesOne env (opcodes operand)) (hread : PushesOne env (opcodes read))
        (hrest : ∀ stack, runOpcodes env (others.flatMap opcodes) stack =
          runOpcodes env (others'.flatMap opcodes) stack) :
        runOpcodes env ((operand :: read :: .equal :: others).flatMap opcodes) stack =
          runOpcodes env ((read :: operand :: .equal :: others').flatMap opcodes) stack := by
      have hsplit (x y : InstructionKind) (rest : List InstructionKind) :
          (x :: y :: .equal :: rest).flatMap opcodes =
            (opcodes x ++ opcodes y ++ [.equal]) ++ rest.flatMap opcodes := by
        simp [opcodes]
      rw [hsplit, hsplit]
      exact run_append_congr (run_equal_comm hoperand hread stack) hrest
    rcases hpair with hpair | hpair
    · obtain ⟨operand, others, others', hpushes, hothers, hothers', hkinds, hkinds'⟩ :=
        instantiateFrom_swapped h hpair hordered.1 hbound hbound'
      rw [hkinds, hkinds']
      apply hrun (hpushes env) (pushesOne_read hpair.2)
      intro stack'
      exact ih hordered.2.2.2 hordered'.2.2.2 hothers hothers' stack'
    · obtain ⟨operand, others', others, hpushes, hothers', hothers, hkinds', hkinds⟩ :=
        instantiateFrom_swapped h hpair hordered'.1 hbound' hbound
      rw [hkinds, hkinds']
      symm
      apply hrun (hpushes env) (pushesOne_read hpair.2)
      intro stack'
      exact (ih hordered.2.2.2 hordered'.2.2.2 hothers hothers' stack').symm

theorem bound_of_valid {params : List ArtifactParam}
    (h : validateParamBindings params bindings = .ok ()) {param : ArtifactParam}
    (hmem : param ∈ params) (hkey : param.ty = .publicKey) :
    ∃ key, bindings.lookup param.name = some (.publicKey key) ∧ key.length = 32 := by
  induction params with
  | nil => cases hmem
  | cons first rest ih =>
    obtain ⟨_, hfirst, hrest⟩ := bind_eq_ok.mp h
    rcases List.mem_cons.mp hmem with rfl | hmem
    · cases hlookup : bindings.lookup param.name with
      | none => simp [hlookup] at hfirst
      | some value =>
        simp only [hlookup, validateParamType, hkey] at hfirst
        cases value with
        | publicKey key =>
          refine ⟨key, rfl, ?_⟩
          by_contra hlength
          simp [hlength] at hfirst
        | _ => simp at hfirst
    · exact ih hrest hmem

theorem BindsKeys.congr (h : BindsKeys contract spend bindings IsKey)
    (hcontract : contract'.params = contract.params) (hspend : spend'.params = spend.params) :
    BindsKeys contract' spend' bindings IsKey := by
  refine ⟨?_, ?_, h.bound⟩
  · rw [hspend]
    exact h.fresh
  · rw [hcontract]
    exact h.typed

end

section

variable {lib : ScriptLib} {file spendName : String} {bindings : Bindings} {contract : Contract}
  {lowered : IrContract}

theorem bindsKeys_of_accepted {cx : Checker} (haccepted : cx.ContractAccepted contract)
    (hlower : lowerContract file contract = .ok lowered)
    (hvalid : validateParamBindings (artifactContract lowered).params bindings = .ok ())
    {spend : IrSpend} (hspend : spend ∈ lowered.spends) :
    BindsKeys (artifactContract lowered) (artifactSpend spend) bindings (KeyParam contract) := by
  obtain ⟨_, hparams, hspends⟩ := lowerContract_eq_ok hlower
  obtain ⟨source, hsource, hlowerSpend⟩ := Library.exists_of_mem_mapM hspends hspend
  obtain ⟨_, hspendParams, _⟩ := lowerSpend_eq_ok hlowerSpend
  have hcontractParams : (artifactContract lowered).params =
      artifactParams (lowerParams contract.params) := congrArg artifactParams hparams
  constructor
  · intro name hkey
    obtain ⟨param, hparam, rfl, _⟩ := hkey
    have hnames :
        (artifactSpend spend).params.map ArtifactParam.name = paramNames source.params := by
      simp [artifactSpend, artifactParams, hspendParams, lowerParams, paramNames,
        Function.comp_def]
    rw [hnames]
    intro hshadow
    exact (haccepted.spend source hsource).unshadowed _ hshadow (List.mem_map_of_mem hparam)
  · intro name hkey
    obtain ⟨param, hparam, rfl, hty⟩ := hkey
    rw [hcontractParams, paramType_of_declared haccepted.params hparam, hty]
  · intro name hkey
    obtain ⟨param, hparam, rfl, hty⟩ := hkey
    rw [hcontractParams] at hvalid
    have hmem : (⟨param.name.name, param.ty⟩ : ArtifactParam) ∈
        artifactParams (lowerParams contract.params) := by
      simp only [artifactParams, lowerParams, List.map_map, List.mem_map]
      exact ⟨param, hparam, rfl⟩
    exact bound_of_valid hvalid hmem hty

theorem keysRight_iff
    (hbinds : ∀ spend ∈ lowered.spends,
      BindsKeys (artifactContract lowered) (artifactSpend spend) bindings (KeyParam contract))
    (hscript : ∀ key : Bytes, key.length = 32 →
      lib.payToAddressScript ⟨.testnet, .pubKey, key⟩ = ⟨0, 0x20 :: key ++ [0xac]⟩) :
    KeysRight lib file contract lowered spendName bindings ↔ KeysInOrder contract lowered := by
  have hcode (spend : IrSpend) (hspend : spend ∈ lowered.spends) :=
    everywhere_congr (@encodedAt_iff lib (artifactContract lowered) (artifactSpend spend) spendName
      bindings _ (hbinds spend hspend) hscript) none (kinds spend.instructions)
  constructor
  · intro h
    constructor
    · intro spend hspend stmt hstmt use huse hlowered hkey
      exact pushesSymbol_iff.mp (h.pushed spend hspend stmt hstmt use huse hlowered hkey)
    · intro spend hspend
      exact (hcode spend hspend).mp (h.encoded spend hspend)
  · intro h
    constructor
    · intro spend hspend stmt hstmt use huse hlowered hkey
      exact pushesSymbol_iff.mpr (h.named spend hspend stmt hstmt use huse hlowered hkey)
    · intro spend hspend
      exact (hcode spend hspend).mpr (h.ordered spend hspend)

/-- A contract that is lowered, found in an artifact and instantiated. -/
structure Instantiates (lib : ScriptLib) (file : String) (contract : Contract)
    (contractName spendName : String) (bindings : Bindings) (target : TestnetTarget)
    (lowered : IrContract) (instantiation : ContractInstantiation) : Prop where
  lowers : lowerContract file contract = .ok lowered
  instantiates : ∃ artifact, findContract artifact contractName = .ok (artifactContract lowered) ∧
    instantiateContract lib artifact contractName spendName bindings target = .ok instantiation

/-- The only spend of an instantiated contract, and the code that its redeem script is from. -/
theorem Instantiates.spend {contractName : String} {target : TestnetTarget}
    {instantiation : ContractInstantiation}
    (h : Instantiates lib file contract contractName spendName bindings target lowered
      instantiation) :
    ∃ source spend code, contract.spends = [source] ∧ lowered.spends = [spend] ∧
      lowerSpend file source = .ok spend ∧
      validateParamBindings (artifactContract lowered).params bindings = .ok () ∧
      instantiateFrom lib (artifactContract lowered) (artifactSpend spend) spendName bindings none
        spend.instructions = .ok code ∧
      compileSpendScript code = .ok instantiation.redeemScript := by
  obtain ⟨artifact, hfound, hinstantiate⟩ := h.instantiates
  obtain ⟨found, artifactSpend', code, _, _, hcontract, hone, hspend, hvalid, hcode, hscript, _⟩ :=
    instantiateContract_eq_ok hinstantiate
  obtain rfl := Except.ok.inj (hfound.symm.trans hcontract)
  obtain ⟨_, _, hspends⟩ := lowerContract_eq_ok h.lowers
  obtain ⟨spend, hsingle⟩ : ∃ spend, lowered.spends = [spend] := by
    apply List.length_eq_one_iff.mp
    simpa [artifactContract] using hone
  have hforall := Library.forall₂_of_mapM hspends
  rw [hsingle, List.forall₂_cons_right_iff] at hforall
  obtain ⟨source, rest, hlower, hrest, hsource⟩ := hforall
  rw [List.forall₂_nil_right_iff] at hrest
  rw [hrest] at hsource
  have hfind : artifactSpend' = artifactSpend spend := by
    have hmem : artifactSpend' ∈ (artifactContract lowered).spends := by
      unfold findSpend at hspend
      split at hspend
      · rename_i hsome
        cases hspend
        exact List.mem_of_find?_eq_some hsome
      · cases hspend
    simpa [artifactContract, hsingle] using hmem
  rw [hfind] at hcode
  exact ⟨source, spend, code, hsource, hsingle, hlower, hvalid, hcode, hscript⟩

end

/-- Both contracts bind their keys right, and their redeem scripts do the same on every stack. -/
structure OrderIndependent (lib : ScriptLib) (file : String) (contract contract' : Contract)
    (lowered lowered' : IrContract) (spendName : String) (bindings : Bindings)
    (instantiation instantiation' : ContractInstantiation) : Prop where
  right : KeysRight lib file contract lowered spendName bindings
  right' : KeysRight lib file contract' lowered' spendName bindings
  same : ∀ env stack, runScript env instantiation.redeemScript stack =
    runScript env instantiation'.redeemScript stack

/-- The order of operands does not matter exactly where all keys stand in order, before and after
the swaps. -/
theorem operandOrder_iff (lib : ScriptLib)
    (hscript : ∀ key : Bytes, key.length = 32 →
      lib.payToAddressScript ⟨.testnet, .pubKey, key⟩ = ⟨0, 0x20 :: key ++ [0xac]⟩)
    (program : Program) (source file : String) (analysis : Analysis)
    (h : analyzeProgram program source file = .ok analysis) (contract contract' : Contract)
    (hcontract : contract ∈ program.contracts)
    (hswap : contract.Swapped (KeyParam contract) contract') (contractName spendName : String)
    (bindings : Bindings) (target : TestnetTarget) (lowered lowered' : IrContract)
    (instantiation instantiation' : ContractInstantiation)
    (hfirst : Instantiates lib file contract contractName spendName bindings target lowered
      instantiation)
    (hsecond : Instantiates lib file contract' contractName spendName bindings target lowered'
      instantiation') :
    OrderIndependent lib file contract contract' lowered lowered' spendName bindings instantiation
        instantiation' ↔
      KeysInOrder contract lowered ∧ KeysInOrder contract' lowered' := by
  obtain ⟨haccepted, _⟩ := accepted_of_analyzeProgram h
  obtain ⟨body, spend, code, hbody, hsingle, hlower, hvalid, hcode, hcompiles⟩ := hfirst.spend
  obtain ⟨body', spend', code', hbody', hsingle', hlower', _, hcode', hcompiles'⟩ := hsecond.spend
  obtain ⟨spends, rfl, hspends⟩ := hswap
  have hparams : (artifactContract lowered').params = (artifactContract lowered).params := by
    have hleft := (lowerContract_eq_ok hfirst.lowers).2.1
    have hright := (lowerContract_eq_ok hsecond.lowers).2.1
    exact congrArg artifactParams (hright.trans hleft.symm)
  have hspendSwap : body.Swapped (KeyParam contract) body' := by
    have hspends' : spends = [body'] := hbody'
    rw [hbody, hspends', List.forall₂_cons] at hspends
    exact hspends.1
  obtain ⟨_, hspendParams, hcodeSwap⟩ := swaps_spend hspendSwap hlower hlower'
  have hspendParams' : (artifactSpend spend').params = (artifactSpend spend).params :=
    congrArg artifactParams hspendParams
  have hbinds : BindsKeys (artifactContract lowered) (artifactSpend spend) bindings
      (KeyParam contract) :=
    bindsKeys_of_accepted (haccepted.contract contract hcontract) hfirst.lowers hvalid
      (by simp [hsingle])
  have hright := @keysRight_iff lib file spendName bindings contract lowered
    (by simpa [hsingle] using hbinds) hscript
  have hbinds' : ∀ other ∈ lowered'.spends, BindsKeys (artifactContract lowered')
      (artifactSpend other) bindings (KeyParam { contract with spends := spends }) := by
    rw [hsingle', List.forall_mem_singleton]
    exact hbinds.congr hparams hspendParams'
  have hright' := @keysRight_iff lib file spendName bindings { contract with spends := spends }
    lowered' hbinds' hscript
  constructor
  · intro hindependent
    exact ⟨hright.mp hindependent.right, hright'.mp hindependent.right'⟩
  · intro hinorder
    obtain ⟨hordered, hordered'⟩ := hinorder
    refine ⟨hright.mpr hordered, hright'.mpr hordered', ?_⟩
    intro env stack
    rw [instantiateFrom_congr hparams hspendParams'] at hcode'
    rw [runScript_spendScript hcompiles, runScript_spendScript hcompiles']
    have hcodeOrdered := hordered.ordered spend (by simp [hsingle])
    have hcodeOrdered' := hordered'.ordered spend' (by simp [hsingle'])
    have hrun (stack : Stack) := run_swapped hbinds hcodeSwap hcodeOrdered hcodeOrdered' hcode
      hcode' env stack
    simp only [runOpcodes] at hrun ⊢
    rw [run_append, run_append, hrun]

/-- `output(i).script` -/
def outputScript (i : Nat) : Expr :=
  .field (.call (.ident (nameAt "output")) [.integer i ⟨0, 0⟩] ⟨0, 0⟩) (nameAt "script") ⟨0, 0⟩

/-- `contract Pay { params { owner: PublicKey } spend move() { .. } }` -/
def payContract (body : List Stmt) : Contract :=
  ⟨nameAt "Pay", [⟨nameAt "owner", .publicKey, ⟨0, 0⟩⟩], none,
    [⟨nameAt "move", [], body, ⟨0, 0⟩⟩], ⟨0, 0⟩⟩

/-- That contract lowered, with the code of its spend. -/
def payLowered (code : List InstructionKind) : IrContract :=
  ⟨"Pay", [⟨"owner", .publicKey⟩], none, [⟨"move", [], code.map (Instruction.mk ⟨0, 0⟩)⟩]⟩

def ownerKey : Bytes := List.replicate 32 2

/-- The contract alone in an artifact, instantiated for the owner's key. -/
def payInstantiation (lowered : IrContract) : Except TestnetError ContractInstantiation :=
  instantiateContract flatLib.toScriptLib
    ⟨[], [], "", "", "", none, [], [], ⟨[]⟩, [artifactContract lowered]⟩ "Pay" "move"
    [("owner", .publicKey ownerKey)] .tn10

theorem keyParam_owner {body : List Stmt} {name : String} :
    KeyParam (payContract body) name ↔ name = "owner" := by
  constructor
  · intro h
    obtain ⟨param, hparam, rfl, _⟩ := h
    rw [payContract, List.mem_singleton] at hparam
    rw [hparam]
    rfl
  · intro h
    exact ⟨_, List.mem_singleton_self _, h.symm, rfl⟩

/-- The key behind a script read that the last statement has left, in front of another one:
`return output(0).script; require owner == output(1).script;` -/
def keyBehind : List Stmt :=
  [.return (outputScript 0) ⟨0, 0⟩,
    .require (.binary (.ident (nameAt "owner")) .equal (outputScript 1) ⟨0, 0⟩) ⟨0, 0⟩]

/-- `return output(0).script; require output(1).script == owner;` -/
def keyBehindSwapped : List Stmt :=
  [.return (outputScript 0) ⟨0, 0⟩,
    .require (.binary (outputScript 1) .equal (.ident (nameAt "owner")) ⟨0, 0⟩) ⟨0, 0⟩]

theorem swapped_keyBehind : (payContract keyBehind).Swapped (KeyParam (payContract keyBehind))
    (payContract keyBehindSwapped) := by
  have hkey : KeyAndScript (KeyParam (payContract keyBehind)) (.ident (nameAt "owner"))
      (outputScript 1) := ⟨⟨_, rfl, keyParam_owner.mpr rfl⟩, rfl⟩
  have hreturn : (Stmt.return (outputScript 0) ⟨0, 0⟩).Swapped (KeyParam (payContract keyBehind))
      (.return (outputScript 0) ⟨0, 0⟩) :=
    ⟨_, rfl, _, rfl, _, _, rfl, rfl, _, _, rfl, rfl, rfl⟩
  exact ⟨_, rfl, .cons ⟨_, rfl, .cons hreturn (.cons ⟨_, rfl, Or.inr ⟨rfl, rfl, Or.inl hkey⟩⟩
    .nil)⟩ .nil⟩

theorem namedRight_pay (body : List Stmt) :
    ∀ spend ∈ (payContract body).spends, ∀ stmt ∈ spend.body, ∀ use ∈ stmt.expr.uses,
      use.lowered = true → KeyParam (payContract body) use.id.name →
        use.id.name ≠ "input_count" ∧ use.id.name ≠ "output_count" := by
  intro spend _ stmt _ use _ _ hkey
  rw [keyParam_owner.mp hkey]
  decide

theorem operandOrder_behindRead : ∃ lowered lowered' instantiation instantiation',
    Instantiates flatLib.toScriptLib "pay.ks" (payContract keyBehind) "Pay" "move"
      [("owner", .publicKey ownerKey)] .tn10 lowered instantiation ∧
    Instantiates flatLib.toScriptLib "pay.ks" (payContract keyBehindSwapped) "Pay" "move"
      [("owner", .publicKey ownerKey)] .tn10 lowered' instantiation' ∧
    OrderIndependent flatLib.toScriptLib "pay.ks" (payContract keyBehind)
      (payContract keyBehindSwapped) lowered lowered' "move" [("owner", .publicKey ownerKey)]
      instantiation instantiation' := by
  let code : List InstructionKind :=
    [.outputScript 0, .push (.symbol "owner"), .outputScript 1, .equal, .verify]
  let code' : List InstructionKind :=
    [.outputScript 0, .outputScript 1, .push (.symbol "owner"), .equal, .verify]
  have hinstantiates : ∃ instantiation instantiation',
      payInstantiation (payLowered code) = .ok instantiation ∧
      payInstantiation (payLowered code') = .ok instantiation' := ⟨_, _, rfl, rfl⟩
  obtain ⟨instantiation, instantiation', hfirst, hsecond⟩ := hinstantiates
  refine ⟨payLowered code, payLowered code', instantiation, instantiation',
    ⟨rfl, _, rfl, hfirst⟩, ⟨rfl, _, rfl, hsecond⟩, ?_⟩
  apply (operandOrder_iff flatLib.toScriptLib (fun _ _ => rfl) ⟨[payContract keyBehind]⟩ ""
    "pay.ks" _ rfl (payContract keyBehind) (payContract keyBehindSwapped)
    (List.mem_singleton_self _) swapped_keyBehind "Pay" "move" [("owner", .publicKey ownerKey)]
    .tn10 (payLowered code) (payLowered code') instantiation instantiation'
    ⟨rfl, _, rfl, hfirst⟩ ⟨rfl, _, rfl, hsecond⟩).mpr
  constructor
  · refine ⟨namedRight_pay keyBehind, ?_⟩
    simp [payLowered, code, kinds, Everywhere, InOrderAt, comparedWithScript, isScriptRead,
      isEquation]
  · refine ⟨namedRight_pay keyBehindSwapped, ?_⟩
    simp [payLowered, code', kinds, Everywhere, InOrderAt, comparedWithScript, isScriptRead,
      isEquation]

/-- `require output(0).script == owner;` -/
def keyLast : List Stmt :=
  [.require (.binary (outputScript 0) .equal (.ident (nameAt "owner")) ⟨0, 0⟩) ⟨0, 0⟩]

/-- `require owner == output(0).script;` -/
def keyFirst : List Stmt :=
  [.require (.binary (.ident (nameAt "owner")) .equal (outputScript 0) ⟨0, 0⟩) ⟨0, 0⟩]

theorem swapped_keyLast :
    (payContract keyLast).Swapped (KeyParam (payContract keyLast)) (payContract keyFirst) := by
  have hkey : KeyAndScript (KeyParam (payContract keyLast)) (.ident (nameAt "owner"))
      (outputScript 0) := ⟨⟨_, rfl, keyParam_owner.mpr rfl⟩, rfl⟩
  exact ⟨_, rfl, .cons ⟨_, rfl, .cons ⟨_, rfl, Or.inr ⟨rfl, rfl, Or.inr hkey⟩⟩ .nil⟩ .nil⟩

/-- A transaction whose first output pays to the owner. -/
def payingEnv : ScriptEnv :=
  ⟨⟨⟨0, [], [⟨100000, flatLib.payToAddressScript ⟨.testnet, .pubKey, ownerKey⟩, none⟩], 0, 0⟩, []⟩,
    0, fun _ _ => true, id, id⟩

/-- With its operands swapped, the requirement that output 0 pays to the owner refuses a
transaction that does. -/
theorem operandOrder_matters : ∃ analysis lowered lowered' instantiation instantiation',
    analyzeProgram ⟨[payContract keyLast]⟩ "" "pay.ks" = .ok analysis ∧
    (payContract keyLast).Swapped (KeyParam (payContract keyLast)) (payContract keyFirst) ∧
    Instantiates flatLib.toScriptLib "pay.ks" (payContract keyLast) "Pay" "move"
      [("owner", .publicKey ownerKey)] .tn10 lowered instantiation ∧
    Instantiates flatLib.toScriptLib "pay.ks" (payContract keyFirst) "Pay" "move"
      [("owner", .publicKey ownerKey)] .tn10 lowered' instantiation' ∧
    accepts (runScript payingEnv instantiation.redeemScript []) = true ∧
    accepts (runScript payingEnv instantiation'.redeemScript []) = false ∧
    ¬ OrderIndependent flatLib.toScriptLib "pay.ks" (payContract keyLast) (payContract keyFirst)
      lowered lowered' "move" [("owner", .publicKey ownerKey)] instantiation instantiation' := by
  have haccepts : ∃ instantiation instantiation',
      payInstantiation (payLowered [.outputScript 0, .push (.symbol "owner"), .equal, .verify]) =
        .ok instantiation ∧
      payInstantiation (payLowered [.push (.symbol "owner"), .outputScript 0, .equal, .verify]) =
        .ok instantiation' ∧
      accepts (runScript payingEnv instantiation.redeemScript []) = true ∧
      accepts (runScript payingEnv instantiation'.redeemScript []) = false :=
    ⟨_, _, rfl, rfl, rfl, rfl⟩
  obtain ⟨instantiation, instantiation', hfirst, hsecond, haccepted, hrefused⟩ := haccepts
  refine ⟨_, _, _, instantiation, instantiation', rfl, swapped_keyLast, ⟨rfl, _, rfl, hfirst⟩,
    ⟨rfl, _, rfl, hsecond⟩, haccepted, hrefused, ?_⟩
  intro hindependent
  rw [hindependent.same payingEnv [], hrefused] at haccepted
  cases haccepted

end KaspaScript
