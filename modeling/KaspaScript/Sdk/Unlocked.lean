import KaspaScript.Meaning.Spends
import KaspaScript.Sdk.Arguments
import KaspaScript.Sdk.KeyOrder

namespace KaspaScript

open Library (bind_eq_ok forM_eq_ok pure_eq_ok joinAll)
open Library.ScriptNum (encode)
open Testnet (BuilderLib buildContractSignatureScript)

/-- Numbers fit a script number, and bytes are none that has a shorter push than as data. -/
structure BindingsFit (bindings : Bindings) : Prop where
  integers : ∀ name n, bindings.lookup name = some (.integer n) → n ≤ i64Max
  minimal : ∀ name data, bindings.lookup name = some (.bytes data) → dataPush data = .push data

section

variable (lib : ScriptLib) (contract : ArtifactContract) (spend : ArtifactSpend)
  (bindings : Bindings) (args : String → Bytes) (asScript : String → Bool)

/-- The value a name stands for: an argument, or a bound parameter; a key stands for its script where
it is compared with scripts. -/
def boundVal (name : String) : Val :=
  if name ∈ spend.params.map ArtifactParam.name then .bytes (args name)
  else
    match bindings.lookup name with
    | some (.publicKey key) => .bytes (if asScript name then keyScript lib key else key)
    | some (.hash data) | some (.bytes data) => .bytes data
    | some (.integer n) => .num n
    | some (.bool b) => .bool b
    | none => .bytes []

/-- The types of the names: those of the spend's parameters, then those of the contract's. -/
def declaredTypes (name : String) : Option TypeName :=
  (paramType spend.params name).or (paramType contract.params name)

/-- At every use a key stands directly behind a script read exactly if it is one of those that are
compared with scripts. -/
def KeysAlike (previous : Option InstructionKind) (code : List InstructionKind) : Prop :=
  Everywhere (fun previous kind _ => ∀ name, kind = .push (.symbol name) →
    name ∉ spend.params.map ArtifactParam.name →
    paramType contract.params name = some .publicKey → previous.any isScriptRead = asScript name)
    previous code

end

section

variable {lib : ScriptLib} {contract : ArtifactContract} {spend : ArtifactSpend}
  {spendName : String} {bindings : Bindings} {args : String → Bytes} {asScript : String → Bool}

theorem mem_of_paramType {params : List ArtifactParam} {name : String} {ty : TypeName}
    (h : paramType params name = some ty) : ∃ param ∈ params, param.name = name ∧ param.ty = ty := by
  obtain ⟨param, hfind, hty⟩ := Option.map_eq_some_iff.mp h
  refine ⟨param, ?_, ?_, hty⟩
  · exact List.mem_reverse.mp (List.mem_of_find?_eq_some hfind)
  · simpa using List.find?_some hfind

theorem binding_of_valid {params : List ArtifactParam}
    (h : validateParamBindings params bindings = .ok ()) {param : ArtifactParam}
    (hmem : param ∈ params) : ∃ value, bindings.lookup param.name = some value ∧
      validateParamType param.name param.ty value = .ok () := by
  have hparam := forM_eq_ok.mp h param hmem
  cases hlookup : bindings.lookup param.name with
  | none => simp [hlookup] at hparam
  | some value =>
    simp only [hlookup] at hparam
    exact ⟨value, rfl, hparam⟩

/-- A binding of a type is a value of it. -/
theorem binding_cases {name : String} {ty : TypeName} {value : ParamValue}
    (h : validateParamType name ty value = .ok ()) :
    (∃ key, ty = .publicKey ∧ value = .publicKey key ∧ key.length = 32) ∨
      (∃ data, ty = .hash ∧ value = .hash data ∧ data.length = 32) ∨
      (∃ n, (ty = .blockHeight ∨ ty = .amount) ∧ value = .integer n) ∨
      (∃ b, ty = .bool ∧ value = .bool b) ∨ ∃ data, ty = .bytes ∧ value = .bytes data := by
  unfold validateParamType at h
  cases ty <;> cases value <;> simp_all

theorem length_keyScript (key : Bytes) : 2 ≤ (keyScript lib key).length := by
  simp [keyScript, spkBytes]

/-- What stands for an instruction is its value's push. -/
theorem supplied_eq_bound (hvalid : validateParamBindings contract.params bindings = .ok ())
    (hfit : BindingsFit bindings) {previous : Option InstructionKind} {kind : InstructionKind}
    (hkeys : ∀ name, kind = .push (.symbol name) → name ∉ spend.params.map ArtifactParam.name →
      paramType contract.params name = some .publicKey → previous.any isScriptRead = asScript name)
    {ops : List Opcode}
    (h : suppliedKind lib contract spend spendName bindings args previous kind = .ok ops) :
    ops = boundOpcodes (boundVal lib spend bindings args asScript) kind := by
  by_cases hsymbol : ∃ name, kind = .push (.symbol name)
  · obtain ⟨name, rfl⟩ := hsymbol
    by_cases hargument : name ∈ spend.params.map ArtifactParam.name
    · have hsome : argument? spend (.push (.symbol name)) = some name := if_pos hargument
      rw [suppliedKind, hsome, Except.ok.injEq] at h
      rw [← h, boundOpcodes, boundVal, if_pos hargument]
      rfl
    · have hnone : argument? spend (.push (.symbol name)) = none := if_neg hargument
      rw [suppliedKind, hnone] at h
      obtain ⟨bound, hbound, h⟩ := bind_eq_ok.mp h
      obtain rfl := pure_eq_ok.mp h
      simp only [instantiateKind, if_neg hargument] at hbound
      rw [boundOpcodes, boundVal, if_neg hargument]
      cases hty : paramType contract.params name with
      | none =>
        rw [hty] at hbound
        cases hbound
      | some ty =>
        obtain ⟨param, hparam, rfl, rfl⟩ := mem_of_paramType hty
        obtain ⟨value, hvalue, htyped⟩ := binding_of_valid hvalid hparam
        rw [hty, hvalue] at hbound
        rw [hvalue]
        obtain ⟨bound', hbound', hbound⟩ := bind_eq_ok.mp hbound
        obtain rfl := pure_eq_ok.mp hbound
        rcases binding_cases htyped with ⟨key, hkey, rfl, hlength⟩ | ⟨data, hdata, rfl, hlength⟩ |
          ⟨n, hn, rfl⟩ | ⟨b, hb, rfl⟩ | ⟨data, hdata, rfl⟩
        · have hread := hkeys param.name rfl hargument (hty.trans (congrArg some hkey))
          rw [hkey, hread] at hbound'
          cases hscript : asScript param.name with
          | true =>
            rw [hscript] at hbound'
            obtain rfl := Except.ok.inj hbound'
            have hpush := dataPush_of_length (@length_keyScript lib key)
            simpa [opcodes, pushOpcode, keyScript] using hpush
          | false =>
            rw [hscript] at hbound'
            obtain rfl := Except.ok.inj hbound'
            have hpush : dataPush key = .push key := dataPush_of_length (by omega)
            simpa [opcodes, pushOpcode] using hpush
        · rw [hdata] at hbound'
          obtain rfl := Except.ok.inj hbound'
          have hpush : dataPush data = .push data := dataPush_of_length (by omega)
          simpa [opcodes, pushOpcode] using hpush
        · obtain rfl : bound' = .integer n := by
            rcases hn with hn | hn <;> rw [hn] at hbound' <;> exact (Except.ok.inj hbound').symm
          rfl
        · rw [hb] at hbound'
          obtain rfl := Except.ok.inj hbound'
          rfl
        · rw [hdata] at hbound'
          obtain rfl := Except.ok.inj hbound'
          have hpush := hfit.minimal param.name data hvalue
          simpa [opcodes, pushOpcode] using hpush
  · have hkept : ∀ name, kind ≠ .push (.symbol name) := fun name hname => hsymbol ⟨name, hname⟩
    have hbound : boundOpcodes (boundVal lib spend bindings args asScript) kind = opcodes kind := by
      unfold boundOpcodes
      split
      · exact absurd rfl (hkept _)
      · rfl
    have hnone : argument? spend kind = none := by
      unfold argument?
      split
      · exact absurd rfl (hkept _)
      · rfl
    rw [suppliedKind, hnone] at h
    obtain ⟨bound, hinstantiate, h⟩ := bind_eq_ok.mp h
    obtain rfl := pure_eq_ok.mp h
    rcases instantiateKind_cases hinstantiate with ⟨_, hname, _⟩ | ⟨_, ⟨_, _, hname, _⟩ | ⟨_, rfl⟩⟩
    · exact absurd hname (hkept _)
    · exact absurd hname (hkept _)
    · rw [hbound, List.flatMap_singleton]

theorem KeysAlike.append {previous : Option InstructionKind} {code rest : List Instruction}
    (h : KeysAlike contract spend asScript previous (kinds (code ++ rest))) :
    KeysAlike contract spend asScript previous (kinds code) ∧
      KeysAlike contract spend asScript (previousAfter previous code) (kinds rest) := by
  induction code generalizing previous with
  | nil => exact ⟨trivial, h⟩
  | cons instruction code ih =>
    obtain ⟨hhere, hrest⟩ : _ ∧ KeysAlike contract spend asScript (some instruction.kind)
        (kinds (code ++ rest)) := h
    obtain ⟨hcode, hrest⟩ := ih hrest
    rw [previousAfter_cons]
    exact ⟨⟨hhere, hcode⟩, hrest⟩

theorem suppliedFrom_eq_bound (hvalid : validateParamBindings contract.params bindings = .ok ())
    (hfit : BindingsFit bindings) {previous : Option InstructionKind} {code : List Instruction}
    (hkeys : KeysAlike contract spend asScript previous (kinds code)) {ops : List Opcode}
    (h : suppliedFrom lib contract spend spendName bindings args previous code = .ok ops) :
    ops = boundAll (boundVal lib spend bindings args asScript) code := by
  induction code generalizing previous ops with
  | nil =>
    obtain rfl := Except.ok.inj h
    rfl
  | cons instruction code ih =>
    obtain ⟨first, hfirst, h⟩ := bind_eq_ok.mp h
    obtain ⟨others, hothers, h⟩ := bind_eq_ok.mp h
    obtain rfl := pure_eq_ok.mp h
    obtain ⟨hhere, hrest⟩ : _ ∧ KeysAlike contract spend asScript (some instruction.kind)
        (kinds code) := hkeys
    rw [supplied_eq_bound hvalid hfit hhere hfirst, ih hrest hothers]
    simp [boundAll, kinds]

theorem paramType_eq_none {params : List ArtifactParam} {name : String} :
    paramType params name = none ↔ name ∉ params.map ArtifactParam.name := by
  simp [paramType, List.find?_eq_none]

/-- The values that names stand for are of their declared types. -/
theorem assigns_boundVal (hvalid : validateParamBindings contract.params bindings = .ok ())
    (hfit : BindingsFit bindings) (hparams : ∀ param ∈ spend.params, param.ty = .signature) :
    Assigns (declaredTypes contract spend) (boundVal lib spend bindings args asScript) := by
  intro name ty hty
  by_cases hargument : name ∈ spend.params.map ArtifactParam.name
  · rw [boundVal, if_pos hargument]
    cases hspend : paramType spend.params name with
    | none => exact absurd hargument (paramType_eq_none.mp hspend)
    | some ty' =>
      obtain ⟨param, hparam, _, rfl⟩ := mem_of_paramType hspend
      rw [declaredTypes, hspend, Option.some_or, Option.some.injEq, hparams param hparam] at hty
      rw [← hty]
      trivial
  · rw [boundVal, if_neg hargument]
    rw [declaredTypes, paramType_eq_none.mpr hargument, Option.none_or] at hty
    obtain ⟨param, hparam, rfl, rfl⟩ := mem_of_paramType hty
    obtain ⟨value, hvalue, htyped⟩ := binding_of_valid hvalid hparam
    rw [hvalue]
    rcases binding_cases htyped with ⟨key, hkey, rfl, _⟩ | ⟨data, hdata, rfl, _⟩ | ⟨n, hn, rfl⟩ |
      ⟨b, hb, rfl⟩ | ⟨data, hdata, rfl⟩
    · rw [hkey]
      trivial
    · rw [hdata]
      trivial
    · have hfits : NumFits n := numFits_of_le (hfit.integers param.name n hvalue)
      rcases hn with hn | hn <;> rw [hn] <;> exact hfits
    · rw [hb]
      trivial
    · rw [hdata]
      trivial

end

/-- A spend that asks for signatures only, requires what the fragment covers, finds its arguments in
their places and reads each key in one way. -/
structure PlainSpend (file : String) (spend : Spend) (contract : ArtifactContract)
    (compiled : ArtifactSpend) (bindings : Bindings) (asScript : String → Bool) : Prop where
  passed : ArgumentsPassed file spend compiled
  signatures : ∀ param ∈ compiled.params, param.ty = .signature
  body : RequireBody (declaredTypes contract compiled) spend.body
  keys : KeysAlike contract compiled asScript none (kinds compiled.instructions)
  bindings : BindingsFit bindings

section

variable {lib : BuilderLib} {file : String} {artifact : CompiledArtifact}
  {contractName spendName : String} {bindings : Bindings} {instantiation : ContractInstantiation}
  {contract : Contract} {spend : Spend} {compiledContract : ArtifactContract}
  {compiled : ArtifactSpend} {code : List Instruction} {asScript : String → Bool}

/-- From the locked output back to the source: a plain spend is unlocked by its arguments exactly
when all its requires are true of them. -/
theorem unlocks_plain (hlib : PushesData lib)
    (h : BoundFrom lib.toScriptLib file artifact contractName spendName bindings instantiation
      contract spend compiledContract compiled code)
    (hplain : PlainSpend file spend compiledContract compiled bindings asScript) {args : String → Bytes}
    {env : ScriptEnv} (htx : Admissible env.populated) {script : Bytes}
    (hscript : buildContractSignatureScript lib instantiation.redeemScript
      (compiled.params.map fun param => args param.name) = .ok script) :
    unlocks lib.toScriptLib env instantiation.scriptPublicKey script = true ↔
      ∀ stmt ∈ spend.body, (env.context (boundVal lib.toScriptLib compiled bindings args
        asScript)).eval stmt.expr = some (.bool true) := by
  have hvalue := @assigns_boundVal lib.toScriptLib compiledContract compiled bindings args asScript
    h.valid hplain.bindings hplain.signatures
  obtain ⟨ops, hops⟩ := supplied_of_instantiated args h.bound
  obtain ⟨_, hrun⟩ := run_body htx hvalue hplain.body h.compiledTo.body
  have hpasses : ∀ before code after, List.Forall₂ (fun stmt code => lowerStmt file stmt = .ok code)
      spend.body (before ++ code :: after) →
      compiled.instructions = (before ++ code :: after).flatten → ∀ ops,
        suppliedFrom lib.toScriptLib compiledContract compiled spendName bindings args
          (previousAfter none before.flatten) code = .ok ops → Passes env ops := by
    intro before code after hcodes hflatten ops hops
    obtain ⟨stmt, hstmt, hlower⟩ := Library.exists_of_forall₂ hcodes (y := code) (by simp)
    obtain ⟨e, span, rfl, hfragment⟩ := hplain.body stmt hstmt
    have hkeys := hplain.keys
    rw [hflatten, List.flatten_append, List.flatten_cons] at hkeys
    obtain rfl := suppliedFrom_eq_bound h.valid hplain.bindings hkeys.append.2.append.1 hops
    obtain ⟨_, hone⟩ := run_require htx hvalue hfragment hlower
    by_cases htrue : (env.context (boundVal lib.toScriptLib compiled bindings args asScript)).eval e =
        some (.bool true)
    · exact .inr fun stack => by rw [hone stack, if_pos htrue]
    · exact .inl fun stack => by rw [hone stack, if_neg htrue]
  rw [unlocks_passed hlib h hplain.passed hops hpasses hscript]
  obtain rfl := suppliedFrom_eq_bound h.valid hplain.bindings hplain.keys hops
  simp only [runOpcodes_append, hrun []]
  split_ifs with hall
  · exact ⟨fun _ => hall, fun _ => rfl⟩
  · refine ⟨?_, fun hcontra => absurd hcontra hall⟩
    intro hfalse
    cases hfalse

end

theorem plainSpend_alpha (key : Bytes) : PlainSpend "closes.ks" alphaSpend alphaArtifactContract
    alphaCompiled [("owner", .publicKey key)] fun _ => false := by
  refine ⟨argumentsPassed_alpha, ?_, ?_, ?_, ⟨?_, ?_⟩⟩
  · intro param hparam
    rw [alphaCompiled, List.mem_singleton] at hparam
    rw [hparam]
  · intro stmt hstmt
    rw [alphaSpend, List.mem_singleton] at hstmt
    refine ⟨_, _, hstmt, .bool (.verify rfl ?_ ?_)⟩
    · exact @Fragment.param (declaredTypes alphaArtifactContract alphaCompiled) ⟨"sig", ⟨91, 94⟩⟩
        .signature rfl (by decide) (by decide)
    · exact @Fragment.param (declaredTypes alphaArtifactContract alphaCompiled)
        ⟨"owner", ⟨102, 107⟩⟩ .publicKey rfl (by decide) (by decide)
  · simp [KeysAlike, Everywhere, alphaCompiled, kinds, isScriptRead]
  · intro name n h
    simp only [List.lookup_cons, List.lookup_nil] at h
    split at h <;> cases h
  · intro name data h
    simp only [List.lookup_cons, List.lookup_nil] at h
    split at h <;> cases h

end KaspaScript
