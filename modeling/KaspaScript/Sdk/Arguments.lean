import KaspaScript.Meaning.Locality
import KaspaScript.Meaning.Require
import KaspaScript.Native.Agreement
import KaspaScript.Sdk.Bound
import KaspaScript.Sdk.KeyOrder
import KaspaScript.Sdk.Previews

namespace KaspaScript

open Library (bind_eq_ok pure_eq_ok joinAll joinAll_cons run_append)
open Library.ScriptNum (encode)

section

variable (spend : ArtifactSpend)

/-- The spend parameter that an instruction pushes. -/
def argument? : InstructionKind → Option String
  | .push (.symbol name) =>
      if name ∈ spend.params.map ArtifactParam.name then some name else none
  | _ => none

/-- The spend parameters that some code pushes, in order. -/
def argumentsOf (code : List InstructionKind) : List String := code.filterMap (argument? spend)

/-- The code pushes its arguments before it does anything else. -/
def ArgumentsFirst (code : List InstructionKind) : Prop :=
  code.take (argumentsOf spend code).length =
    (argumentsOf spend code).map fun name => .push (.symbol name)

end

section

variable (lib : ScriptLib) (contract : ArtifactContract) (spend : ArtifactSpend)
  (spendName : String) (bindings : Bindings) (args : String → Bytes)

/-- What an instruction runs as when the arguments are pushed where their names stand; contract
parameters are bound as instantiation binds them. -/
def suppliedKind (previous : Option InstructionKind) (kind : InstructionKind) :
    Except TestnetError (List Opcode) :=
  match argument? spend kind with
  | some name => .ok [.push (args name)]
  | none => do
      let bound ← instantiateKind lib contract spend spendName bindings previous kind
      pure (bound.flatMap opcodes)

def suppliedFrom :
    Option InstructionKind → List Instruction → Except TestnetError (List Opcode)
  | _, [] => .ok []
  | previous, instruction :: rest => do
      let bound ← suppliedKind lib contract spend spendName bindings args previous instruction.kind
      let others ← suppliedFrom (some instruction.kind) rest
      pure (bound ++ others)

end

/-- The instruction before what follows some code. -/
def previousAfter (previous : Option InstructionKind) (code : List Instruction) :
    Option InstructionKind :=
  (kinds code).getLast?.or previous

theorem previousAfter_cons (previous : Option InstructionKind) (instruction : Instruction)
    (rest : List Instruction) :
    previousAfter previous (instruction :: rest) = previousAfter (some instruction.kind) rest := by
  unfold previousAfter kinds
  rw [List.map_cons, List.getLast?_cons]
  cases (rest.map Instruction.kind).getLast? <;> rfl

theorem previousAfter_append (previous : Option InstructionKind) (code rest : List Instruction) :
    previousAfter previous (code ++ rest) = previousAfter (previousAfter previous code) rest := by
  induction code generalizing previous with
  | nil => rfl
  | cons instruction code ih => rw [List.cons_append, previousAfter_cons, previousAfter_cons, ih]

section

variable {lib : ScriptLib} {contract : ArtifactContract} {spend : ArtifactSpend}
  {spendName : String} {bindings : Bindings} {args : String → Bytes} {env : ScriptEnv}

theorem instantiateFrom_append {previous : Option InstructionKind} {code rest bound : List Instruction}
    (h : instantiateFrom lib contract spend spendName bindings previous (code ++ rest) = .ok bound) :
    ∃ first others,
      instantiateFrom lib contract spend spendName bindings previous code = .ok first ∧
      instantiateFrom lib contract spend spendName bindings (previousAfter previous code) rest =
        .ok others ∧ bound = first ++ others := by
  induction code generalizing previous bound with
  | nil => exact ⟨[], bound, rfl, h, rfl⟩
  | cons instruction code ih =>
    obtain ⟨one, hone, h⟩ := bind_eq_ok.mp h
    obtain ⟨others, hothers, h⟩ := bind_eq_ok.mp h
    obtain rfl := pure_eq_ok.mp h
    obtain ⟨first, last, hfirst, hlast, rfl⟩ := ih hothers
    refine ⟨one.map (Instruction.mk instruction.span) ++ first, last, ?_, ?_,
      (List.append_assoc ..).symm⟩
    · rw [instantiateFrom, hone, Library.ok_bind, hfirst, Library.ok_bind]
      rfl
    · rw [previousAfter_cons]
      exact hlast

theorem suppliedFrom_append {previous : Option InstructionKind} {code rest : List Instruction}
    {ops : List Opcode}
    (h : suppliedFrom lib contract spend spendName bindings args previous (code ++ rest) = .ok ops) :
    ∃ first others,
      suppliedFrom lib contract spend spendName bindings args previous code = .ok first ∧
      suppliedFrom lib contract spend spendName bindings args (previousAfter previous code) rest =
        .ok others ∧ ops = first ++ others := by
  induction code generalizing previous ops with
  | nil => exact ⟨[], ops, rfl, h, rfl⟩
  | cons instruction code ih =>
    obtain ⟨one, hone, h⟩ := bind_eq_ok.mp h
    obtain ⟨others, hothers, h⟩ := bind_eq_ok.mp h
    obtain rfl := pure_eq_ok.mp h
    obtain ⟨first, last, hfirst, hlast, rfl⟩ := ih hothers
    refine ⟨one ++ first, last, ?_, ?_, (List.append_assoc ..).symm⟩
    · rw [suppliedFrom, hone, Library.ok_bind, hfirst, Library.ok_bind]
      rfl
    · rw [previousAfter_cons]
      exact hlast

/-- Instantiation drops an argument's push and leaves every other instruction in one. -/
theorem instantiateKind_cases {previous : Option InstructionKind} {kind : InstructionKind}
    {bound : List InstructionKind}
    (h : instantiateKind lib contract spend spendName bindings previous kind = .ok bound) :
    (∃ name, kind = .push (.symbol name) ∧ argument? spend kind = some name ∧ bound = []) ∨
      (argument? spend kind = none ∧
        ((∃ name value, kind = .push (.symbol name) ∧ bound = [.push value]) ∨
          (∀ name, kind ≠ .push (.symbol name)) ∧ bound = [kind])) := by
  by_cases hsymbol : ∃ name, kind = .push (.symbol name)
  · obtain ⟨name, rfl⟩ := hsymbol
    by_cases hargument : name ∈ spend.params.map ArtifactParam.name
    · simp only [instantiateKind, if_pos hargument, Except.ok.injEq] at h
      exact .inl ⟨name, rfl, by simp only [argument?, if_pos hargument], h.symm⟩
    · simp only [instantiateKind, if_neg hargument] at h
      refine .inr ⟨by simp only [argument?, if_neg hargument], .inl ⟨name, ?_⟩⟩
      cases hty : paramType contract.params name with
      | none =>
        rw [hty] at h
        cases h
      | some ty =>
        rw [hty] at h
        cases hvalue : bindings.lookup name with
        | none =>
          rw [hvalue] at h
          cases h
        | some value =>
          rw [hvalue] at h
          obtain ⟨value', _, h⟩ := bind_eq_ok.mp h
          exact ⟨value', rfl, (pure_eq_ok.mp h).symm⟩
  · have hkept : ∀ name, kind ≠ .push (.symbol name) := fun name hname => hsymbol ⟨name, hname⟩
    have hargument : argument? spend kind = none := by
      unfold argument?
      split
      · exact absurd rfl (hkept _)
      · rfl
    refine .inr ⟨hargument, .inr ⟨hkept, ?_⟩⟩
    unfold instantiateKind at h
    split at h
    · exact absurd rfl (hkept _)
    · exact (Except.ok.inj h).symm

theorem isPush_pushOpcode (value : Value) : (pushOpcode value).IsPush := by
  have hdata (data : Bytes) : (dataPush data).IsPush := by
    unfold dataPush
    split_ifs
    · exact ⟨data, Or.inr rfl⟩
    · exact ⟨data, Or.inl rfl⟩
  cases value with
  | integer n => exact ⟨encode n, Or.inl rfl⟩
  | bool b => exact ⟨boolBytes b, Or.inl rfl⟩
  | _ => exact hdata _

theorem supplied_of_instantiated (args : String → Bytes) {previous : Option InstructionKind} {code bound : List Instruction}
    (h : instantiateFrom lib contract spend spendName bindings previous code = .ok bound) :
    ∃ ops, suppliedFrom lib contract spend spendName bindings args previous code = .ok ops := by
  induction code generalizing previous bound with
  | nil => exact ⟨[], rfl⟩
  | cons instruction code ih =>
    obtain ⟨one, hone, h⟩ := bind_eq_ok.mp h
    obtain ⟨others, hothers, _⟩ := bind_eq_ok.mp h
    obtain ⟨ops, hops⟩ := ih hothers
    rw [suppliedFrom, suppliedKind, hops]
    cases hargument : argument? spend instruction.kind with
    | some name => exact ⟨_, rfl⟩
    | none =>
      rw [hone]
      exact ⟨_, rfl⟩

/-- Supplying the arguments puts a push in the place of every symbol. -/
theorem filled_of_supplied {previous : Option InstructionKind} {code : List Instruction}
    {ops : List Opcode}
    (h : suppliedFrom lib contract spend spendName bindings args previous code = .ok ops) :
    Filled (kinds code) ops := by
  induction code generalizing previous ops with
  | nil =>
    obtain rfl := Except.ok.inj h
    exact .nil
  | cons instruction code ih =>
    obtain ⟨first, hfirst, h⟩ := bind_eq_ok.mp h
    obtain ⟨others, hothers, h⟩ := bind_eq_ok.mp h
    obtain rfl := pure_eq_ok.mp h
    have hfilled := ih hothers
    have hkinds : kinds (instruction :: code) = instruction.kind :: kinds code := rfl
    rw [hkinds]
    unfold suppliedKind at hfirst
    split at hfirst
    · rename_i name hargument
      obtain rfl := Except.ok.inj hfirst
      unfold argument? at hargument
      split at hargument
      · rename_i hkind
        rw [hkind]
        exact .symbol ⟨_, Or.inl rfl⟩ hfilled
      · cases hargument
    · rename_i hargument
      obtain ⟨bound, hbound, hfirst⟩ := bind_eq_ok.mp hfirst
      obtain rfl := pure_eq_ok.mp hfirst
      rcases instantiateKind_cases hbound with ⟨_, _, hsome, _⟩ | ⟨_, hkept⟩
      · rw [hargument] at hsome
        cases hsome
      rcases hkept with hsymbol | ⟨hkind, rfl⟩
      · obtain ⟨name, value, hname, rfl⟩ := hsymbol
        rw [hname]
        exact .symbol (isPush_pushOpcode value) hfilled
      · rw [List.flatMap_singleton]
        exact .plain hkind hfilled

/-- Code that pushes no argument runs as it is instantiated. -/
theorem supplied_without_arguments {previous : Option InstructionKind} {code bound : List Instruction}
    (hnone : argumentsOf spend (kinds code) = [])
    (h : instantiateFrom lib contract spend spendName bindings previous code = .ok bound) :
    suppliedFrom lib contract spend spendName bindings args previous code =
      .ok ((kinds bound).flatMap opcodes) := by
  induction code generalizing previous bound with
  | nil =>
    obtain rfl := Except.ok.inj h
    rfl
  | cons instruction code ih =>
    obtain ⟨one, hone, h⟩ := bind_eq_ok.mp h
    obtain ⟨others, hothers, h⟩ := bind_eq_ok.mp h
    obtain rfl := pure_eq_ok.mp h
    have hkinds : kinds (instruction :: code) = instruction.kind :: kinds code := rfl
    rw [hkinds, argumentsOf, List.filterMap_eq_nil_iff, List.forall_mem_cons] at hnone
    have hrest : argumentsOf spend (kinds code) = [] := List.filterMap_eq_nil_iff.mpr hnone.2
    rw [suppliedFrom, suppliedKind, hnone.1, hone, ih hrest hothers]
    simp [kinds, Function.comp_def, pure, Except.pure, Library.ok_bind]

/-- Nothing is left of code that only pushes arguments. -/
theorem supplied_arguments (args : String → Bytes) {previous : Option InstructionKind} {code bound : List Instruction}
    {names : List String} (hcode : kinds code = names.map fun name => .push (.symbol name))
    (hnames : ∀ name ∈ names, name ∈ spend.params.map ArtifactParam.name)
    (h : instantiateFrom lib contract spend spendName bindings previous code = .ok bound) :
    bound = [] ∧ suppliedFrom lib contract spend spendName bindings args previous code =
      .ok (names.map fun name => .push (args name)) := by
  induction code generalizing previous bound names with
  | nil =>
    obtain rfl : names = [] := List.map_eq_nil_iff.mp hcode.symm
    exact ⟨(Except.ok.inj h).symm, rfl⟩
  | cons instruction code ih =>
    obtain ⟨one, hone, h⟩ := bind_eq_ok.mp h
    obtain ⟨others, hothers, h⟩ := bind_eq_ok.mp h
    obtain rfl := pure_eq_ok.mp h
    cases names with
    | nil => cases hcode
    | cons name names =>
      have hkinds : kinds (instruction :: code) = instruction.kind :: kinds code := rfl
      rw [hkinds, List.map_cons, List.cons.injEq] at hcode
      rw [List.forall_mem_cons] at hnames
      obtain ⟨rfl, hops⟩ := ih hcode.2 hnames.2 hothers
      have hargument : argument? spend instruction.kind = some name := by
        rw [hcode.1, argument?, if_pos hnames.1]
      rcases instantiateKind_cases hone with ⟨_, _, _, rfl⟩ | ⟨hnot, _⟩
      · rw [suppliedFrom, suppliedKind, hargument, hops]
        exact ⟨rfl, rfl⟩
      · rw [hargument] at hnot
        cases hnot

theorem mem_argumentsOf {code : List InstructionKind} {name : String}
    (h : name ∈ argumentsOf spend code) : name ∈ spend.params.map ArtifactParam.name := by
  obtain ⟨kind, _, hkind⟩ := List.mem_filterMap.mp h
  unfold argument? at hkind
  split at hkind
  · split_ifs at hkind with hmem
    exact Option.some.inj hkind ▸ hmem
  · cases hkind

theorem argumentsOf_append (xs ys : List InstructionKind) :
    argumentsOf spend (xs ++ ys) = argumentsOf spend xs ++ argumentsOf spend ys :=
  List.filterMap_append

theorem argumentsOf_pushes {names : List String}
    (h : ∀ name ∈ names, name ∈ spend.params.map ArtifactParam.name) :
    argumentsOf spend (names.map fun name => .push (.symbol name)) = names := by
  induction names with
  | nil => rfl
  | cons name names ih =>
    rw [List.forall_mem_cons] at h
    have hfirst : argument? spend (.push (.symbol name)) = some name := if_pos h.1
    rw [List.map_cons, argumentsOf, List.filterMap_cons_some hfirst]
    exact congrArg _ (ih h.2)

/-- Code that pushes its arguments first falls into those pushes and code without arguments. -/
theorem ArgumentsFirst.split {code : List Instruction} (h : ArgumentsFirst spend (kinds code)) :
    ∃ pushes body, code = pushes ++ body ∧
      (kinds pushes = (argumentsOf spend (kinds code)).map fun name => .push (.symbol name)) ∧
      argumentsOf spend (kinds body) = [] := by
  have htake : kinds (code.take (argumentsOf spend (kinds code)).length) =
      (argumentsOf spend (kinds code)).map fun name => .push (.symbol name) := by
    rw [← h, kinds, kinds, List.map_take]
  refine ⟨_, code.drop (argumentsOf spend (kinds code)).length,
    (List.take_append_drop ..).symm, htake, ?_⟩
  have hsum : argumentsOf spend (kinds (code.take (argumentsOf spend (kinds code)).length)) ++
      argumentsOf spend (kinds (code.drop (argumentsOf spend (kinds code)).length)) =
      argumentsOf spend (kinds code) := by
    rw [← argumentsOf_append, ← kinds_append, List.take_append_drop]
  rw [htake, argumentsOf_pushes fun name hname => mem_argumentsOf hname] at hsum
  simpa using hsum

/-- The arguments of some pieces of code on the stack: those of the first piece on top, each piece's
own in the order in which it pushes them. -/
def argumentStack (spend : ArtifactSpend) (args : String → Bytes) (codes : List (List Instruction)) :
    Stack :=
  codes.flatMap fun code => ((argumentsOf spend (kinds code)).map args).reverse

/-- The piece passes or fails alike on every stack, and leaves it as it was. -/
def Passes (env : ScriptEnv) (ops : List Opcode) : Prop :=
  (∀ s, runOpcodes env ops s = none) ∨ ∀ s, runOpcodes env ops s = some s

/-- Pieces that leave the stack as it was and push their arguments first find them where the caller
has left them. -/
theorem run_arguments {codes : List (List Instruction)} {previous : Option InstructionKind}
    (hfirst : ∀ code ∈ codes, ArgumentsFirst spend (kinds code))
    (hpasses : ∀ before code after, codes = before ++ code :: after → ∀ ops,
      suppliedFrom lib contract spend spendName bindings args (previousAfter previous before.flatten)
        code = .ok ops → Passes env ops)
    {bound : List Instruction} {ops : List Opcode}
    (hbound : instantiateFrom lib contract spend spendName bindings previous codes.flatten =
      .ok bound)
    (hops : suppliedFrom lib contract spend spendName bindings args previous codes.flatten =
      .ok ops) (stack : Stack) :
    runOpcodes env ((kinds bound).flatMap opcodes) (argumentStack spend args codes ++ stack) =
      runOpcodes env ops stack := by
  induction codes generalizing previous bound ops with
  | nil =>
    obtain rfl := Except.ok.inj hbound
    obtain rfl := Except.ok.inj hops
    rfl
  | cons code codes ih =>
    obtain ⟨hfirst, hfirst'⟩ := List.forall_mem_cons.mp hfirst
    have hrest : ∀ before code' after, codes = before ++ code' :: after → ∀ ops,
        suppliedFrom lib contract spend spendName bindings args
          (previousAfter (previousAfter previous code) before.flatten) code' = .ok ops →
            Passes env ops := by
      intro before code' after hsplit ops' hops'
      apply hpasses (code :: before) code' after (by rw [hsplit]; rfl)
      rw [List.flatten_cons, previousAfter_append]
      exact hops'
    rw [List.flatten_cons] at hbound hops
    obtain ⟨one, others, hone, hothers, rfl⟩ := instantiateFrom_append hbound
    obtain ⟨ops', opsRest, hops', hopsRest, rfl⟩ := suppliedFrom_append hops
    -- below this piece's arguments stand those of the pieces behind it
    have hstack : argumentStack spend args (code :: codes) ++ stack =
        ((argumentsOf spend (kinds code)).map args).reverse ++
          (argumentStack spend args codes ++ stack) := by
      simp [argumentStack]
    have hpiece (s : Stack) : runOpcodes env ((kinds one).flatMap opcodes)
        (((argumentsOf spend (kinds code)).map args).reverse ++ s) = runOpcodes env ops' s := by
      obtain ⟨pushes, body, hcode, hpushes, hbody⟩ := hfirst.split
      rw [hcode] at hone hops'
      obtain ⟨none', rest, hnone, hrest, rfl⟩ := instantiateFrom_append hone
      obtain ⟨first, last, hsuppliedFirst, hlast, rfl⟩ := suppliedFrom_append hops'
      obtain ⟨rfl, hsupplied⟩ := supplied_arguments args hpushes
        (fun name hname => mem_argumentsOf hname) hnone
      obtain rfl := Except.ok.inj (hsupplied.symm.trans hsuppliedFirst)
      obtain rfl := Except.ok.inj ((supplied_without_arguments hbody hrest).symm.trans hlast)
      have hmap : ((argumentsOf spend (kinds code)).map fun name => Opcode.push (args name)) =
          ((argumentsOf spend (kinds code)).map args).map .push := by simp
      rw [hmap, runOpcodes_append]
      simp only [runOpcodes_pushes, Option.bind_some, List.nil_append]
    rw [hstack, kinds_append, List.flatMap_append, runOpcodes_append, runOpcodes_append]
    simp only [hpiece]
    rcases hpasses [] code codes rfl ops' hops' with hnone | hsome
    · rw [hnone, hnone]
      rfl
    · rw [hsome, hsome]
      exact ih hfirst' hrest hothers hopsRest

end

/-- The instructions of a statement. -/
def stmtKinds (file : String) (stmt : Stmt) : List InstructionKind :=
  match lowerStmt file stmt with
  | .ok code => kinds code
  | .error _ => []

/-- Every statement pushes the arguments it uses before anything else, and they are declared
statement by statement, the last one first. -/
structure ArgumentsPassed (file : String) (spend : Spend) (compiled : ArtifactSpend) : Prop where
  first : ∀ stmt ∈ spend.body, ArgumentsFirst compiled (stmtKinds file stmt)
  declared : compiled.params.map ArtifactParam.name =
    spend.body.reverse.flatMap fun stmt => argumentsOf compiled (stmtKinds file stmt)

/-- Every statement leaves the stack as deep as it was, over fed key checks. -/
structure Balanced (spend : Spend) : Prop where
  fed : AllFed (spend.body.map Stmt.expr)
  balanced : ∀ stmt ∈ spend.body, stmt.effect = 1

section

variable {file : String} {spend : Spend} {compiled : ArtifactSpend} {args : String → Bytes}
  {env : ScriptEnv} {contract : ArtifactContract} {spendName : String} {bindings : Bindings}

theorem argumentStack_pieces {body : List Stmt} {codes : List (List Instruction)}
    (h : List.Forall₂ (fun stmt code => lowerStmt file stmt = .ok code) body codes) :
    argumentStack compiled args codes = ((body.reverse.flatMap fun stmt =>
      argumentsOf compiled (stmtKinds file stmt)).map args).reverse := by
  induction h with
  | nil => rfl
  | @cons stmt code body codes hcode _ ih =>
    have hkinds : stmtKinds file stmt = kinds code := by rw [stmtKinds, hcode]
    have hcons : argumentStack compiled args (code :: codes) =
        ((argumentsOf compiled (kinds code)).map args).reverse ++
          argumentStack compiled args codes := List.flatMap_cons
    rw [hcons, ih, List.reverse_cons, List.flatMap_append, List.map_append, List.reverse_append,
      List.flatMap_singleton, hkinds]

/-- The statements of a balanced spend leave the stack as it was. -/
theorem Balanced.passes (h : Balanced spend) {stmt : Stmt} (hstmt : stmt ∈ spend.body)
    {code : List Instruction} (hlower : lowerStmt file stmt = .ok code)
    (hsupported : ∀ kind ∈ kinds code, isUnsupported kind = false) {ops : List Opcode}
    (hops : Filled (kinds code) ops) : Passes env ops := by
  have hone : joinAll ([stmt].map (lowerStmt file)) = .ok code := by
    rw [List.map_singleton, Library.joinAll_singleton, hlower]
  have hfed : AllFed ([stmt].map Stmt.expr) := by
    apply h.fed.sub
    intro node hnode
    obtain ⟨e, he, hnode⟩ := hnode
    rw [List.map_singleton, List.mem_singleton] at he
    exact ⟨e, List.mem_map.mpr ⟨stmt, hstmt, he.symm⟩, hnode⟩
  have hlocal : LocalTo env (kinds code) 1 := by
    simpa [h.balanced stmt hstmt] using localTo_rules.body hone hfed hsupported
  exact local_balanced (hlocal ops hops)

end

open Testnet (BuilderLib buildContractSignatureScript)

/-- Runs a signature script and then the script that it leaves on top, which has to be the one that
the spent output pays to. -/
def unlocks (lib : ScriptLib) (env : ScriptEnv) (locking : ScriptPublicKey)
    (signatureScript : Bytes) : Bool :=
  match runScript env signatureScript [] with
  | some (redeem :: stack) =>
      decide (lib.payToScriptHashScript redeem = locking) && accepts (runScript env redeem stack)
  | _ => false

/-- The script builder appends data as minimal pushes. -/
def PushesData (lib : BuilderLib) : Prop :=
  ∀ {script data out}, lib.addData script data = .ok out →
    ∃ code, out = script ++ code ∧ Encodes code [.plain (.push data)]

theorem run_contractSignatureScript {lib : BuilderLib} (hlib : PushesData lib) {redeem script : Bytes}
    {payloads : List Bytes} (h : buildContractSignatureScript lib redeem payloads = .ok script)
    (env : ScriptEnv) : runScript env script [] = some (redeem :: payloads.reverse) := by
  have hadd {start data out : Bytes} (h : (lib.addData start data).mapError TestnetError.tx = .ok out) :
      ∃ code, out = start ++ code ∧ Encodes code [.plain (.push data)] :=
    hlib (Library.mapError_eq_ok.mp h)
  obtain ⟨pushed, hpushed, hlast⟩ := bind_eq_ok.mp h
  obtain ⟨first, hfirst, hencodes⟩ := encodes_foldlM hadd hpushed
  obtain ⟨last, hlast', hencodes'⟩ := hadd hlast
  have hall := hencodes.append hencodes'
  have hpushes : (payloads.map Opcode.push).map Library.Branching.plain ++ [.plain (.push redeem)] =
      ((payloads ++ [redeem]).map Opcode.push).map .plain := by simp
  rw [hlast', hfirst, List.nil_append, hall.runScript_eq, hpushes, runOps,
    Library.runBranching_plain]
  change runOpcodes env _ [] = _
  rw [runOpcodes_pushes]
  simp

/-- A spend unlocked with its arguments runs as its own instructions do with every argument pushed
where its name stands. -/
theorem unlocks_passed {lib : BuilderLib} (hlib : PushesData lib) {file : String}
    {artifact : CompiledArtifact} {contractName spendName : String} {bindings : Bindings}
    {instantiation : ContractInstantiation} {contract : Contract} {spend : Spend}
    {compiledContract : ArtifactContract} {compiled : ArtifactSpend} {code : List Instruction}
    (h : BoundFrom lib.toScriptLib file artifact contractName spendName bindings instantiation
      contract spend compiledContract compiled code)
    (hpassed : ArgumentsPassed file spend compiled) {args : String → Bytes} {ops : List Opcode}
    (hops : suppliedFrom lib.toScriptLib compiledContract compiled spendName bindings args none
      compiled.instructions = .ok ops) {env : ScriptEnv}
    (hpasses : ∀ before code after, List.Forall₂ (fun stmt code => lowerStmt file stmt = .ok code)
      spend.body (before ++ code :: after) →
      compiled.instructions = (before ++ code :: after).flatten → ∀ ops,
        suppliedFrom lib.toScriptLib compiledContract compiled spendName bindings args
          (previousAfter none before.flatten) code = .ok ops → Passes env ops) {script : Bytes}
    (hscript : buildContractSignatureScript lib instantiation.redeemScript
      (compiled.params.map fun param => args param.name) = .ok script) :
    unlocks lib.toScriptLib env instantiation.scriptPublicKey script =
      accepts (runOpcodes env (ops ++ [.push (boolBytes true)]) []) := by
  obtain ⟨codes, hcodes, hflatten⟩ := Library.parts_of_joinAll h.compiledTo.body
  rw [List.forall₂_map_left_iff] at hcodes
  have hfirst : ∀ code ∈ codes, ArgumentsFirst compiled (kinds code) := by
    intro code hcode
    obtain ⟨stmt, hstmt, hlower⟩ := Library.exists_of_forall₂ hcodes hcode
    have hkinds : stmtKinds file stmt = kinds code := by rw [stmtKinds, hlower]
    exact hkinds ▸ hpassed.first stmt hstmt
  have hbound := h.bound
  rw [hflatten] at hbound hops
  have hrun := run_arguments hfirst (fun before code after hsplit => hpasses before code after
    (hsplit ▸ hcodes) (hsplit ▸ hflatten)) hbound hops []
  have hstack : argumentStack compiled args codes =
      (compiled.params.map fun param => args param.name).reverse := by
    rw [argumentStack_pieces hcodes, ← hpassed.declared, List.map_map]
    rfl
  rw [hstack, List.append_nil] at hrun
  rw [unlocks, run_contractSignatureScript hlib hscript]
  simp only [h.locking, decide_true, Bool.true_and]
  rw [runScript_spendScript h.script]
  simp only [runOpcodes_append, hrun]

/-- Spend arguments reach the operators they were written for: where the statements are balanced and
push their arguments first, and the arguments are declared in the order in which the statements take
them off the stack, an instantiated contract is unlocked by them exactly when its own instructions
are satisfied with every argument in its place. -/
theorem arguments_reach (lib : BuilderLib) (hlib : PushesData lib) (source file : String)
    (target : Target) (artifact : CompiledArtifact)
    (hcompile : compileFileForTarget lib.sha256 source file target = .ok artifact)
    (contractName spendName : String) (bindings : Bindings) (network : TestnetTarget)
    (instantiation : ContractInstantiation)
    (h : instantiateContract lib.toScriptLib artifact contractName spendName bindings network =
      .ok instantiation) :
    ∃ program, parseFile source file = .ok program ∧ ∃ contract ∈ program.contracts,
      ∃ spend ∈ contract.spends, ∃ compiledContract compiled code,
        BoundFrom lib.toScriptLib file artifact contractName spendName bindings instantiation
          contract spend compiledContract compiled code ∧
        (Balanced spend → ArgumentsPassed file spend compiled → ∀ args, ∃ ops,
          suppliedFrom lib.toScriptLib compiledContract compiled spendName bindings args none
            compiled.instructions = .ok ops ∧
          ∀ env script, buildContractSignatureScript lib instantiation.redeemScript
              (compiled.params.map fun param => args param.name) = .ok script →
            unlocks lib.toScriptLib env instantiation.scriptPublicKey script =
              accepts (runOpcodes env (ops ++ [.push (boolBytes true)]) [])) := by
  obtain ⟨program, hparse, _, contract, hcontract, spend, hspend, compiledContract, compiled, code,
    hbound⟩ := boundFrom_of_instantiateContract hcompile h
  refine ⟨program, hparse, contract, hcontract, spend, hspend, compiledContract, compiled, code,
    hbound, ?_⟩
  intro hbalanced hpassed args
  obtain ⟨ops, hops⟩ := supplied_of_instantiated args hbound.bound
  refine ⟨ops, hops, ?_⟩
  intro env script hscript
  apply unlocks_passed hlib hbound hpassed hops _ hscript
  intro before piece after hcodes hflatten ops' hops'
  obtain ⟨stmt, hstmt, hlower⟩ := Library.exists_of_forall₂ hcodes (y := piece) (by simp)
  apply hbalanced.passes hstmt hlower _ (filled_of_supplied hops')
  intro kind hkind
  apply hbound.compiledTo.supported
  rw [hflatten, List.flatten_append, List.flatten_cons, kinds_append, kinds_append]
  exact List.mem_append_right _ (List.mem_append_left _ hkind)

/-- The crates of the examples, with the script builder's minimal pushes. -/
def pushingLib : BuilderLib :=
  { Testnet.flatLib with addData := fun script data => (script ++ ·) <$> canonicalPush data }

theorem pushesData_pushingLib : PushesData pushingLib := by
  intro script data out h
  cases hpush : canonicalPush data with
  | error message =>
    have h : (script ++ ·) <$> canonicalPush data = .ok out := h
    rw [hpush] at h
    cases h
  | ok code =>
    have h : (script ++ ·) <$> canonicalPush data = .ok out := h
    rw [hpush] at h
    exact ⟨code, (Except.ok.inj h).symm, encodes_canonicalPush hpush⟩

/-- `spend close(sig: Signature) { require sig.verify(owner); }` -/
def alphaSpend : Spend :=
  ⟨⟨"close", ⟨55, 60⟩⟩, [⟨⟨"sig", ⟨61, 64⟩⟩, .signature, ⟨61, 75⟩⟩],
    [.require (.call (.field (.ident ⟨"sig", ⟨91, 94⟩⟩) ⟨"verify", ⟨95, 101⟩⟩ ⟨91, 101⟩)
      [.ident ⟨"owner", ⟨102, 107⟩⟩] ⟨91, 108⟩) ⟨83, 109⟩], ⟨55, 113⟩⟩

def alphaProgram : Program :=
  ⟨[⟨⟨"Alpha", ⟨9, 14⟩⟩, [⟨⟨"owner", ⟨28, 33⟩⟩, .publicKey, ⟨28, 44⟩⟩], none, [alphaSpend],
    ⟨0, 115⟩⟩]⟩

def alphaCompiled : ArtifactSpend :=
  ⟨"close", [⟨"sig", .signature⟩], [⟨⟨91, 94⟩, .push (.symbol "sig")⟩,
    ⟨⟨102, 107⟩, .push (.symbol "owner")⟩, ⟨⟨91, 108⟩, .checkSig 0⟩, ⟨⟨83, 109⟩, .verify⟩]⟩

def alphaArtifactContract : ArtifactContract :=
  ⟨"Alpha", [⟨"owner", .publicKey⟩], none, [alphaCompiled]⟩

def alphaBindings : Bindings := [("owner", .publicKey ownerKey)]

def alphaSignature : Bytes := List.replicate 65 7

theorem parse_alpha : parseFile alphaSource "closes.ks" = .ok alphaProgram := by
  rw [parseFile, lex_alpha]
  rfl

/-- The compiler, the instantiation and the signature script, one after the other. -/
def buildAlpha : Except TestnetError (CompiledArtifact × ContractInstantiation × Bytes) := do
  let artifact ← (compileFileForTarget pushingLib.sha256 alphaSource "closes.ks"
    .verifiedTn12).mapError fun error => .compile (.codegen error)
  let instantiation ← instantiateContract pushingLib.toScriptLib artifact "Alpha" "close"
    alphaBindings .tn10
  let script ← buildContractSignatureScript pushingLib instantiation.redeemScript [alphaSignature]
  pure (artifact, instantiation, script)

theorem built_alpha : ∃ artifact instantiation script,
    compileFileForTarget pushingLib.sha256 alphaSource "closes.ks" .verifiedTn12 = .ok artifact ∧
    artifact.contracts = [alphaArtifactContract] ∧
    instantiateContract pushingLib.toScriptLib artifact "Alpha" "close" alphaBindings .tn10 =
      .ok instantiation ∧
    buildContractSignatureScript pushingLib instantiation.redeemScript [alphaSignature] =
      .ok script := by
  have hrun : ∃ result, buildAlpha = .ok result ∧ result.1.contracts = [alphaArtifactContract] := by
    apply Library.toOption_map_eq_some
    rw [buildAlpha, compileFileForTarget, lowerFile_of_lex lex_alpha]
    decide +kernel
  obtain ⟨⟨artifact, instantiation, script⟩, hrun, hcontracts⟩ := hrun
  obtain ⟨_, hcompile, hrun⟩ := bind_eq_ok.mp hrun
  obtain ⟨_, hinstantiate, hrun⟩ := bind_eq_ok.mp hrun
  obtain ⟨_, hscript, hrun⟩ := bind_eq_ok.mp hrun
  rw [pure_eq_ok, Prod.mk.injEq, Prod.mk.injEq] at hrun
  obtain ⟨rfl, rfl, rfl⟩ := hrun
  exact ⟨_, _, _, Library.mapError_eq_ok.mp hcompile, hcontracts, hinstantiate, hscript⟩

/-- There is one spend to be found. -/
theorem boundFrom_alpha {lib : ScriptLib} {bindings : Bindings} {spendName : String}
    {artifact : CompiledArtifact} {instantiation : ContractInstantiation}
    (hcontracts : artifact.contracts = [alphaArtifactContract]) {program : Program}
    (hparse : parseFile alphaSource "closes.ks" = .ok program) {contract : Contract}
    (hcontract : contract ∈ program.contracts) {spend : Spend} (hspend : spend ∈ contract.spends)
    {compiledContract : ArtifactContract} {compiled : ArtifactSpend} {code : List Instruction}
    (h : BoundFrom lib "closes.ks" artifact "Alpha" spendName bindings instantiation contract spend
      compiledContract compiled code) :
    spend = alphaSpend ∧ compiledContract = alphaArtifactContract ∧ compiled = alphaCompiled := by
  obtain rfl := Except.ok.inj (parse_alpha.symm.trans hparse)
  rw [alphaProgram, List.mem_singleton] at hcontract
  subst hcontract
  have hfound := mem_of_findContract h.contractFound
  rw [hcontracts, List.mem_singleton] at hfound
  subst hfound
  have hfound := mem_of_findSpend h.spendFound
  rw [alphaArtifactContract, List.mem_singleton] at hfound
  exact ⟨List.mem_singleton.mp hspend, rfl, hfound⟩

theorem argumentsPassed_alpha : ArgumentsPassed "closes.ks" alphaSpend alphaCompiled := by
  constructor
  · intro stmt hstmt
    rw [alphaSpend, List.mem_singleton] at hstmt
    subst hstmt
    rfl
  · rfl

theorem balanced_alpha : Balanced alphaSpend := by
  constructor
  · intro node hnode id args span hcall hid
    subst hcall
    simp [alphaSpend, Stmt.expr, allNodes, Expr.nodes] at hnode
  · intro stmt hstmt
    rw [alphaSpend, List.mem_singleton] at hstmt
    subst hstmt
    rfl

/-- The signature comes before the key, as the opcode takes them. -/
theorem arguments_reach_alpha : ∃ artifact instantiation script,
    compileFileForTarget pushingLib.sha256 alphaSource "closes.ks" .verifiedTn12 = .ok artifact ∧
    instantiateContract pushingLib.toScriptLib artifact "Alpha" "close" alphaBindings .tn10 =
      .ok instantiation ∧
    buildContractSignatureScript pushingLib instantiation.redeemScript [alphaSignature] =
      .ok script ∧
    ∀ env, unlocks pushingLib.toScriptLib env instantiation.scriptPublicKey script =
      accepts (runOpcodes env [.push alphaSignature, .push ownerKey, .checkSig, .verify,
        .push (boolBytes true)] []) := by
  obtain ⟨artifact, instantiation, script, hcompile, hcontracts, hinstantiate, hscript⟩ := built_alpha
  obtain ⟨program, hparse, contract, hcontract, spend, hspend, compiledContract, compiled, code,
    hbound, hreach⟩ := arguments_reach pushingLib pushesData_pushingLib alphaSource "closes.ks"
    .verifiedTn12 artifact hcompile "Alpha" "close" alphaBindings .tn10 instantiation hinstantiate
  obtain ⟨rfl, rfl, rfl⟩ := boundFrom_alpha hcontracts hparse hcontract hspend hbound
  obtain ⟨ops, hops, hunlocks⟩ := hreach balanced_alpha argumentsPassed_alpha fun _ => alphaSignature
  have hops' : suppliedFrom pushingLib.toScriptLib alphaArtifactContract alphaCompiled "close"
      alphaBindings (fun _ => alphaSignature) none alphaCompiled.instructions =
      .ok [.push alphaSignature, .push ownerKey, .checkSig, .verify] := by decide +kernel
  obtain rfl := Except.ok.inj (hops'.symm.trans hops)
  exact ⟨artifact, instantiation, script, hcompile, hinstantiate, hscript,
    fun env => hunlocks env script hscript⟩

end KaspaScript
