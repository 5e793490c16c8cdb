import KaspaScript.Engine.Depth
import KaspaScript.Ir.Reached
import KaspaScript.Meaning.Negation

namespace KaspaScript

open Library (StackEffect joinAll joinAll_singleton bind_eq_ok pure_eq_ok run_append)
open Library.ScriptNum (encode)
open Library.StackEffect (Within leaves leaves_mul_leaves within_one)
open Checker

/-- The operands of a `multisig` call, written out: at least one signature, and on both sides as
many stack elements as the opcode takes. -/
structure FeedsKeyCheck (required : Nat) (elements : List Expr) (signatures : Expr) : Prop where
  positive : 1 ≤ required
  counted : elements.length < 2 ^ 32
  signatures : signatures.effect = leaves required
  keys : (effectEach elements).prod = leaves elements.length

/-- A node is no `multisig` call, or its keys are an array and its operands suffice. -/
def FedMultisig (node : Expr) : Prop :=
  ∀ id args span, node = .call (.ident id) args span → id.name = "multisig" →
    ∃ required span' elements span'' signatures,
      args = [.integer required span', .array elements span'', signatures] ∧
        FeedsKeyCheck required elements signatures

/-- The requirement that a call node states. -/
def requirementOf : Expr → Option SigningRequirement
  | .call callee args _ => callRequirement callee args
  | _ => none

/-- Before the opcode of a `multisig` the stack holds its own operands over the stack below: the
signatures, the threshold, the keys and their number. -/
def OperandsExact (signatures keys : List Instruction) (span : Span) (required keyCount : Nat) :
    Prop :=
  ∀ value env stack operands after,
    compileInstructionSequence (assignParams value (signatures ++
      emit span (.push (.integer required)) ++ keys ++ emit span (.push (.integer keyCount)))) =
      .ok operands →
    runScript env operands stack = some after →
    ∃ sigs ks : List Bytes, sigs.length = required ∧ ks.length = keyCount ∧
      after = encode keyCount :: (ks ++ encode required :: (sigs ++ stack))

/-- A `multisig` call is a threshold check that can be satisfied: over an array of keys, with a
threshold between one and their number, on exactly its own operands, and described as such. -/
def RealThreshold (file : String) (call : Expr) : Prop :=
  ∃ id required span' elements span'' signatures span,
    call = .call (.ident id) [.integer required span', .array elements span'', signatures] span ∧
    1 ≤ required ∧ required ≤ elements.length ∧
    (∃ codeS codeK, lowerExpr file signatures = .ok codeS ∧
      lowerExpr file (.array elements span'') = .ok codeK ∧
      codeEffect (kinds codeS) = leaves required ∧
      codeEffect (kinds codeK) = leaves elements.length ∧
      lowerExpr file call = .ok (codeS ++ emit span (.push (.integer required)) ++ codeK ++
        emit span (.checkMultiSig required elements.length)) ∧
      OperandsExact codeS codeK span required elements.length) ∧
    ∃ requirement, requirementOf call = some requirement ∧ requirement.scheme = .multisig ∧
      requirement.threshold = required ∧
      requirement.authorizedKeys.length = elements.length

/-- The `multisig` calls of a spend. -/
def multisigCalls (spend : Spend) : List Expr :=
  (allNodes (spend.body.map Stmt.expr)).filter CheckKind.multisig.isCall

/-- Every `multisig` call of a spend is in its code, in its model and a real threshold. -/
structure ThresholdsReal (file : String) (spend : Spend) (lowered : IrSpend) : Prop where
  kept : KeepsCalls .multisig spend lowered
  listed : (signingRequirements spend).filter (·.scheme = .multisig) =
    (multisigCalls spend).filterMap requirementOf
  real : ∀ call ∈ multisigCalls spend, RealThreshold file call

def isRequire : Stmt → Bool
  | .require _ _ => true
  | .let _ _ _ | .return _ _ => false

/-- The `multisig` calls of a spend are fed; they stand in `require` statements, and in no part
that lowering passes over. -/
structure ThresholdsFed (spend : Spend) : Prop where
  reached : ∀ part ∈ spend.dropped, CheckKind.multisig.callCount [part] = 0
  required : ∀ stmt ∈ spend.body, isRequire stmt = false →
    CheckKind.multisig.callCount [stmt.expr] = 0
  fed : ∀ call ∈ multisigCalls spend, FedMultisig call

section

variable {env : ScriptEnv} {value : String → Value}

/-- What instructions run on an assignment of the parameters. -/
def assignedOpcodes (value : String → Value) (code : List InstructionKind) : List Opcode :=
  (code.map (assignParam value)).flatMap opcodes

@[simp] theorem assignedOpcodes_append (xs ys : List InstructionKind) :
    assignedOpcodes value (xs ++ ys) = assignedOpcodes value xs ++ assignedOpcodes value ys := by
  simp [assignedOpcodes]

/-- Whatever the run leaves is what the effect says. -/
def KeepsTo (env : ScriptEnv) (value : String → Value) (code : List InstructionKind)
    (e : StackEffect) : Prop :=
  ∀ s s', runOpcodes env (assignedOpcodes value code) s = some s' → Within e s s'

theorem KeepsTo.append {xs ys : List InstructionKind} {e e' : StackEffect}
    (h : KeepsTo env value xs e) (h' : KeepsTo env value ys e') :
    KeepsTo env value (xs ++ ys) (e * e') := by
  intro s s' hrun
  rw [assignedOpcodes_append, runOpcodes, run_append] at hrun
  obtain ⟨mid, hmid, hrest⟩ := Option.bind_eq_some_iff.mp hrun
  exact (h s mid hmid).mul (h' mid s' hrest)

theorem assignParam_effect (kind : InstructionKind) :
    (assignParam value kind).effect = kind.effect := by
  unfold assignParam
  split <;> rfl

theorem assignParam_isMultisig (kind : InstructionKind) :
    (assignParam value kind).isMultisig = kind.isMultisig := by
  unfold assignParam
  split <;> rfl

theorem assignParam_isUnsupported (kind : InstructionKind) :
    isUnsupported (assignParam value kind) = isUnsupported kind := by
  unfold assignParam
  split <;> rfl

theorem keepsTo_single {kind : InstructionKind} (hsupported : isUnsupported kind = false)
    (hmultisig : kind.isMultisig = false) : KeepsTo env value [kind] kind.effect := by
  intro s s' hrun
  rw [← @assignParam_effect value kind]
  apply within_opcodes
  · rw [assignParam_isUnsupported, hsupported]
  · rw [assignParam_isMultisig, hmultisig]
  · simpa [assignedOpcodes] using hrun

theorem keepsTo_nil : KeepsTo env value [] 1 := by
  intro s s' hrun
  rw [assignedOpcodes, List.map_nil, List.flatMap_nil, runOpcodes, Library.run_nil,
    Option.some.injEq] at hrun
  exact hrun ▸ within_one s

/-- A fed key check. -/
theorem keepsTo_multisig {required : Nat} {elements : List Expr} {signatures : Expr}
    {cs ck : List InstructionKind} (hfeeds : FeedsKeyCheck required elements signatures)
    (hrequired : required ≤ u32Max) (hcs : KeepsTo env value cs (leaves required))
    (hck : KeepsTo env value ck (leaves elements.length)) :
    KeepsTo env value (cs ++ [.push (.integer required)] ++ ck ++
      [.checkMultiSig required elements.length]) (leaves 1) := by
  intro s s' hrun
  rw [assignedOpcodes_append, runOpcodes, run_append] at hrun
  obtain ⟨s₃, hrun₃, hrun⟩ := Option.bind_eq_some_iff.mp hrun
  rw [assignedOpcodes_append, run_append] at hrun₃
  obtain ⟨s₂, hrun₂, hrun₃⟩ := Option.bind_eq_some_iff.mp hrun₃
  rw [assignedOpcodes_append, run_append] at hrun₂
  obtain ⟨s₁, hrun₁, hrun₂⟩ := Option.bind_eq_some_iff.mp hrun₂
  obtain ⟨sigs, hsigs, rfl⟩ := (hcs s s₁ hrun₁).of_leaves
  have hpush : s₂ = encode required :: (sigs ++ s) := by
    simpa [assignedOpcodes, assignParam, opcodes, pushOpcode, execOpcode] using hrun₂.symm
  subst hpush
  obtain ⟨ks, hks, rfl⟩ := (hck _ s₃ hrun₃).of_leaves
  have hkeyCount : ks.length ≤ i64Max := by
    have := hfeeds.counted
    unfold i64Max
    omega
  have hwithin : Within (InstructionKind.checkMultiSig required elements.length).effect
      (ks ++ encode required :: (sigs ++ s)) s' := by
    rw [← hsigs, ← hks] at hrun ⊢
    rw [assignedOpcodes, List.map_singleton, List.flatMap_singleton] at hrun
    exact within_checkMultiSig hkeyCount (hsigs ▸ le_i64Max_of_le_u32Max hrequired) hrun
  obtain ⟨_, items, hitems, rfl⟩ := hwithin
  refine ⟨by simp [leaves], items, hitems, ?_⟩
  have htake : elements.length + 1 + required = (ks ++ encode required :: sigs).length := by
    simp only [List.length_append, List.length_cons, hsigs, hks]
    omega
  have hstack : ks ++ encode required :: (sigs ++ s) = (ks ++ encode required :: sigs) ++ s := by
    simp
  simp only [InstructionKind.effect, leaves]
  rw [htake, hstack, List.drop_left, List.drop_zero]

/-- Every node of the expressions is fed. -/
def AllFed (es : List Expr) : Prop := ∀ node ∈ allNodes es, FedMultisig node

theorem AllFed.sub {es es' : List Expr} (h : AllFed es)
    (hsub : ∀ node, (∃ e ∈ es', node ∈ e.nodes) → ∃ e ∈ es, node ∈ e.nodes) : AllFed es' := by
  intro node hnode
  exact h node (mem_allNodes.mpr (hsub node (mem_allNodes.mp hnode)))

/-- The nodes below a single expression. -/
theorem AllFed.below {e : Expr} {es : List Expr} (h : AllFed [e])
    (hsub : ∀ e' ∈ es, ∀ node ∈ e'.nodes, node ∈ e.nodes) : AllFed es := by
  apply h.sub
  intro node hnode
  obtain ⟨e', he', hnode⟩ := hnode
  exact ⟨e, by simp, hsub e' he' node hnode⟩

/-- What holds of single instructions, of key checks over their own operands, and of code after
code. -/
structure EffectRules (P : List InstructionKind → StackEffect → Prop) : Prop where
  nil : P [] 1
  append : ∀ {xs ys e e'}, P xs e → P ys e' → P (xs ++ ys) (e * e')
  single : ∀ {kind : InstructionKind}, isUnsupported kind = false → kind.isMultisig = false →
    P [kind] kind.effect
  multisig : ∀ {required elements signatures cs ck}, FeedsKeyCheck required elements signatures →
    required ≤ u32Max → P cs (leaves required) → P ck (leaves elements.length) →
    P (cs ++ [.push (.integer required)] ++ ck ++ [.checkMultiSig required elements.length])
      (leaves 1)

/-- Such a property holds of the code of fed expressions. -/
theorem EffectRules.lowers {P : List InstructionKind → StackEffect → Prop} (rules : EffectRules P)
    {es : List Expr} {code : List InstructionKind} (h : Lowers es code) (hfed : AllFed es)
    (hsupported : ∀ kind ∈ code, isUnsupported kind = false) : P code (codeEffect code) := by
  induction h with
  | nil => exact rules.nil
  | cons _ _ ihe ihes =>
    obtain ⟨hfirst, hrest⟩ := List.forall_mem_append.mp hsupported
    rw [codeEffect_append]
    apply rules.append
    · exact ihe (hfed.sub (by simp +contextual)) hfirst
    · exact ihes (hfed.sub (by simp +contextual)) hrest
  | inputCount _ | outputCount _ | symbol _ _ | integer | string | bool | indexCall _ _ =>
    rw [codeEffect_singleton]
    exact rules.single rfl rfl
  | array _ ih =>
    apply ih (hfed.below _) hsupported
    intro e he node hnode
    rw [Expr.nodes, List.mem_cons, mem_allNodes]
    exact Or.inr ⟨e, he, hnode⟩
  | not _ ih =>
    rw [codeEffect_append, codeEffect_singleton]
    apply rules.append
    · exact ih (hfed.below (by simp +contextual [Expr.nodes])) (List.forall_mem_append.mp hsupported).1
    · exact rules.single rfl rfl
  | @lockLiteral left value' span span' clock _ =>
    rw [codeEffect_singleton]
    cases clock <;> exact rules.single rfl rfl
  | @lockStack left right span clock code _ _ _ ih =>
    rw [codeEffect_append, codeEffect_singleton]
    apply rules.append
    · exact ih (hfed.below (by simp +contextual [Expr.nodes])) (List.forall_mem_append.mp hsupported).1
    · cases clock <;> exact rules.single rfl rfl
  | @binary left op right span cl cr _ _ _ ihl ihr =>
    obtain ⟨hoperands, hlast⟩ := List.forall_mem_append.mp hsupported
    obtain ⟨hleft, hright⟩ := List.forall_mem_append.mp hoperands
    rw [codeEffect_append, codeEffect_append, codeEffect_singleton]
    apply rules.append
    · apply rules.append
      · exact ihl (hfed.below (by simp +contextual [Expr.nodes])) hleft
      · exact ihr (hfed.below (by simp +contextual [Expr.nodes])) hright
    · apply rules.single (hlast _ (List.mem_singleton_self _))
      cases op <;> rfl
  | verify _ _ _ iho ihk =>
    obtain ⟨hoperands, hlast⟩ := List.forall_mem_append.mp hsupported
    obtain ⟨hobject, hkey⟩ := List.forall_mem_append.mp hoperands
    rw [codeEffect_append, codeEffect_append, codeEffect_singleton]
    apply rules.append
    · apply rules.append
      · exact iho (hfed.below (by simp +contextual [Expr.nodes])) hobject
      · apply ihk (hfed.below _) hkey
        intro e he node hnode
        rw [Expr.nodes, List.mem_cons, List.mem_append, mem_allNodes]
        exact Or.inr (Or.inr ⟨e, List.mem_of_mem_take he, hnode⟩)
    · exact rules.single rfl rfl
  | continuation _ _ =>
    simp only [codeEffect_cons, codeEffect_nil, mul_one]
    have hcount : P [.outputCount] _ := rules.single rfl rfl
    have hrest : ∀ index, P ([.push (.integer index)] ++ [.greaterThan]) _ :=
      fun index => rules.append (rules.single rfl rfl) (rules.single rfl rfl)
    exact rules.append hcount (hrest _)
  | @multisig id required rest span span' cs ck hid hrequired hcs hck ihs ihk =>
    have hself := hfed (.call (.ident id) (.integer required span' :: rest) span)
      (by simp [allNodes, Expr.mem_nodes_self])
    obtain ⟨_, _, elements, span'', signatures, hargs, hfeeds⟩ := hself id _ span rfl hid
    simp only [List.cons.injEq, Expr.integer.injEq] at hargs
    obtain ⟨⟨rfl, rfl⟩, rfl⟩ := hargs
    have hcount : multisigKeyCount [.integer required span', .array elements span'', signatures] =
        elements.length := Nat.mod_eq_of_lt hfeeds.counted
    have hcs' : codeEffect cs = leaves required := by
      rw [effect_of_lowers hcs]
      simpa using hfeeds.signatures
    have hck' : codeEffect ck = leaves elements.length := by
      rw [effect_of_lowers hck]
      simpa [Expr.effect] using hfeeds.keys
    obtain ⟨hoperands, _⟩ := List.forall_mem_append.mp hsupported
    obtain ⟨hlow, hkeys⟩ := List.forall_mem_append.mp hoperands
    have hs := ihs (hfed.below (by simp +contextual [Expr.nodes, allNodes]))
      (List.forall_mem_append.mp hlow).1
    have hk := ihk (hfed.below (by simp +contextual [Expr.nodes, allNodes])) hkeys
    rw [hcs'] at hs
    rw [hck'] at hk
    have heffect : codeEffect (cs ++ [.push (.integer required)] ++ ck ++
        [.checkMultiSig required elements.length]) = leaves 1 := by
      simp only [codeEffect_append, codeEffect_singleton, hcs', hck', InstructionKind.effect,
        leaves_mul_leaves]
      ext <;> simp only [StackEffect.pops_mul, StackEffect.pushes_mul, leaves] <;> omega
    rw [hcount, heffect]
    exact rules.multisig hfeeds hrequired hs hk
  | unaryCall hkind _ ih =>
    obtain ⟨harg, hlast⟩ := List.forall_mem_append.mp hsupported
    rw [codeEffect_append, codeEffect_singleton]
    apply rules.append
    · apply ih (hfed.below _) harg
      intro e he node hnode
      rw [Expr.nodes, List.mem_cons, List.mem_append, mem_allNodes]
      exact Or.inr (Or.inr ⟨e, List.mem_of_mem_take he, hnode⟩)
    · apply rules.single (hlast _ (List.mem_singleton_self _))
      unfold unaryBuiltin at hkind
      split at hkind <;> cases hkind <;> rfl
  | call _ _ _ ihc iha =>
    obtain ⟨hcallee, hargs⟩ := List.forall_mem_append.mp hsupported
    rw [codeEffect_append]
    apply rules.append
    · exact ihc (hfed.below (by simp +contextual [Expr.nodes])) hcallee
    · apply iha (hfed.below _) hargs
      intro e he node hnode
      rw [Expr.nodes, List.mem_cons, List.mem_append, mem_allNodes]
      exact Or.inr (Or.inr ⟨e, he, hnode⟩)
  | @builtinField object field span kind hkind =>
    rw [codeEffect_singleton]
    have heffect := fieldBuiltin_effect hkind
    apply rules.single (hsupported _ (List.mem_singleton_self _))
    cases kind with
    | checkMultiSig required keyCount => simp [InstructionKind.effect, leaves] at heffect
    | _ => rfl
  | field _ _ _ ih =>
    rw [codeEffect_append, codeEffect_singleton]
    apply rules.append
    · exact ih (hfed.below (by simp +contextual [Expr.nodes])) (List.forall_mem_append.mp hsupported).1
    · exact rules.single rfl rfl

theorem keepsTo_rules : EffectRules (KeepsTo env value) :=
  ⟨keepsTo_nil, KeepsTo.append, keepsTo_single, keepsTo_multisig⟩

/-- Code whose key checks are all fed keeps to its effect. -/
theorem keepsTo_of_lowers {es : List Expr} {code : List InstructionKind} (h : Lowers es code)
    (hfed : AllFed es) (hsupported : ∀ kind ∈ code, isUnsupported kind = false) :
    KeepsTo env value code (codeEffect code) :=
  keepsTo_rules.lowers h hfed hsupported

end

/-- The requirements of an expression are those of its call nodes, in order. -/
theorem collectSigningRequirements_eq (e : Expr) :
    collectSigningRequirements e = e.nodes.filterMap requirementOf := by
  have all {es : List Expr}
      (ih : ∀ e ∈ es, collectSigningRequirements e = e.nodes.filterMap requirementOf) :
      collectAllSigningRequirements es = (allNodes es).filterMap requirementOf := by
    induction es with
    | nil => rfl
    | cons e es ihes =>
      rw [collectAllSigningRequirements, allNodes, List.filterMap_append, ih e (by simp),
        ihes fun e' he' => ih e' (by simp [he'])]
  induction e using Expr.induct with
  | ident id | integer value span | string value span | bool value span => rfl
  | array elements span ih =>
    rw [collectSigningRequirements, all ih, Expr.nodes, List.filterMap_cons]
    rfl
  | unary op e span ih =>
    rw [collectSigningRequirements, ih, Expr.nodes, List.filterMap_cons]
    rfl
  | binary left op right span ihl ihr =>
    rw [collectSigningRequirements, ihl, ihr, Expr.nodes, List.filterMap_cons,
      List.filterMap_append]
    rfl
  | call callee args span ihc ih =>
    rw [collectSigningRequirements, ihc, all ih, Expr.nodes, List.filterMap_cons,
      List.filterMap_append, requirementOf]
    cases callRequirement callee args <;> rfl
  | field object field span ih =>
    rw [collectSigningRequirements, ih, Expr.nodes, List.filterMap_cons]
    rfl

/-- The nodes that state a requirement of the multisig scheme are the `multisig` calls. -/
theorem scheme_requirementOf (node : Expr) :
    (requirementOf node).any (·.scheme = .multisig) = CheckKind.multisig.isCall node := by
  cases node with
  | call callee args span =>
    cases callee with
    | field object field span' =>
      by_cases hfield : field.name = "verify" <;>
        simp [requirementOf, callRequirement, hfield, CheckKind.isCall]
    | ident id =>
      by_cases hid : id.name = "multisig" <;>
        simp [requirementOf, callRequirement, hid, CheckKind.isCall, CheckKind.name]
    | _ => rfl
  | _ => rfl

theorem filter_requirements (nodes : List Expr) :
    (nodes.filterMap requirementOf).filter (·.scheme = .multisig) =
      (nodes.filter CheckKind.multisig.isCall).filterMap requirementOf := by
  induction nodes with
  | nil => rfl
  | cons node nodes ih =>
    have hscheme := scheme_requirementOf node
    rw [List.filter_cons, ← hscheme, List.filterMap_cons]
    cases hnode : requirementOf node with
    | none =>
      simp only [Option.any_none, Bool.false_eq_true, if_false]
      exact ih
    | some requirement =>
      simp only [Option.any_some, List.filter_cons]
      split_ifs
      · rw [List.filterMap_cons, hnode, ih]
      · exact ih

theorem signingRequirements_multisig (spend : Spend) :
    (signingRequirements spend).filter (·.scheme = .multisig) =
      ((allNodes (requireExprs spend)).filter CheckKind.multisig.isCall).filterMap
        requirementOf := by
  rw [← filter_requirements]
  congr 1
  unfold signingRequirements
  induction requireExprs spend with
  | nil => rfl
  | cons e es ih =>
    rw [List.flatMap_cons, allNodes, List.filterMap_append, ih, collectSigningRequirements_eq]

/-- Every call states one requirement. -/
theorem length_requirements (nodes : List Expr) :
    ((nodes.filter CheckKind.multisig.isCall).filterMap requirementOf).length =
      nodes.countP CheckKind.multisig.isCall := by
  rw [← filter_requirements]
  induction nodes with
  | nil => rfl
  | cons node nodes ih =>
    rw [List.countP_cons, ← scheme_requirementOf node, List.filterMap_cons]
    cases hnode : requirementOf node with
    | none => simpa using ih
    | some requirement =>
      simp only [List.filter_cons, Option.any_some]
      split_ifs <;> simp [ih]

theorem requireExprs_eq (spend : Spend) :
    requireExprs spend = (spend.body.filter isRequire).map Stmt.expr := by
  unfold requireExprs
  induction spend.body with
  | nil => rfl
  | cons stmt body ih =>
    rw [List.filterMap_cons, List.filter_cons, ih]
    cases stmt <;> rfl

section

variable {check : CheckKind}

/-- A statement's calls are counted with the `require`s or apart from them. -/
theorem callCount_split (body : List Stmt) :
    check.callCount (body.map Stmt.expr) =
      check.callCount ((body.filter isRequire).map Stmt.expr) +
        check.callCount ((body.filter fun stmt => !isRequire stmt).map Stmt.expr) := by
  induction body with
  | nil => rfl
  | cons stmt body ih =>
    rw [List.map_cons, callCount_cons, ih, List.filter_cons, List.filter_cons]
    cases isRequire stmt with
    | true =>
      simp only [if_true, Bool.not_true, Bool.false_eq_true, if_false, List.map_cons]
      rw [callCount_cons stmt.expr (List.map Stmt.expr (body.filter isRequire))]
      omega
    | false =>
      simp only [Bool.false_eq_true, if_false, Bool.not_false, if_true, List.map_cons]
      rw [callCount_cons stmt.expr (List.map Stmt.expr (body.filter fun stmt => !isRequire stmt))]
      omega

theorem filter_isCall_eq_nil {e : Expr} (h : check.callCount [e] = 0) :
    e.nodes.filter check.isCall = [] := by
  apply List.filter_eq_nil_iff.mpr
  apply List.countP_eq_zero.mp
  simpa [CheckKind.callCount, allNodes] using h

/-- Without calls outside `require`s the calls of the body are those of the `require`s. -/
theorem filter_isCall_body {body : List Stmt}
    (h : ∀ stmt ∈ body, isRequire stmt = false → check.callCount [stmt.expr] = 0) :
    (allNodes (body.map Stmt.expr)).filter check.isCall =
      (allNodes ((body.filter isRequire).map Stmt.expr)).filter check.isCall := by
  induction body with
  | nil => rfl
  | cons stmt body ih =>
    have hrest := ih fun s hs => h s (by simp [hs])
    rw [List.map_cons, allNodes, List.filter_append, hrest, List.filter_cons]
    cases hrequire : isRequire stmt with
    | true => simp only [if_true, List.map_cons, allNodes, List.filter_append]
    | false =>
      rw [filter_isCall_eq_nil (h stmt (by simp) hrequire)]
      rfl

end

/-- The model lists the `multisig` calls of the spend exactly when all stand in `require`s. -/
theorem listed_iff (spend : Spend) :
    (signingRequirements spend).filter (·.scheme = .multisig) =
        (multisigCalls spend).filterMap requirementOf ↔
      ∀ stmt ∈ spend.body, isRequire stmt = false →
        CheckKind.multisig.callCount [stmt.expr] = 0 := by
  rw [signingRequirements_multisig, multisigCalls, requireExprs_eq]
  constructor
  · intro h
    have hlength := congrArg List.length h
    rw [length_requirements, length_requirements] at hlength
    have hsplit := @callCount_split .multisig spend.body
    have hnone : CheckKind.multisig.callCount
        ((spend.body.filter fun stmt => !isRequire stmt).map Stmt.expr) = 0 := by
      simp only [CheckKind.callCount] at hsplit ⊢
      omega
    intro stmt hstmt hrequire
    apply callCount_eq_zero.mp hnone
    exact List.mem_map_of_mem (List.mem_filter.mpr ⟨hstmt, by simp [hrequire]⟩)
  · intro h
    rw [filter_isCall_body h]

section

variable {file : String} {cx : Checker} {scope : Scope}

/-- A lowered `multisig` call, in its parts. -/
theorem lowerExpr_multisig {id : Ident} {required : Nat} {span span' : Span}
    {keys signatures : Expr} {code : List Instruction} (hid : id.name = "multisig") :
    lowerExpr file (.call (.ident id) [.integer required span', keys, signatures] span) =
        .ok code ↔
      required ≤ u32Max ∧ ∃ codeS codeK, lowerExpr file signatures = .ok codeS ∧
        lowerExpr file keys = .ok codeK ∧
        code = codeS ++ emit span (.push (.integer required)) ++ codeK ++
          emit span (.checkMultiSig required
            (multisigKeyCount [.integer required span', keys, signatures])) := by
  rw [lowerExpr]
  · simp only [lowerCall, hid, lowerMultisig, List.head?_cons]
    by_cases hrequired : required ≤ u32Max
    · rw [if_pos hrequired, and_iff_right hrequired]
      simp only [lowerEach, List.getElem?_cons_succ, List.getElem?_cons_zero, Option.toList_some,
        bind_eq_ok, pure_eq_ok, joinAll_singleton]
      constructor
      · intro h
        obtain ⟨codeS, hs, codeK, hk, hcode⟩ := h
        exact ⟨codeS, codeK, hs, hk, hcode.symm⟩
      · intro h
        obtain ⟨codeS, codeK, hs, hk, hcode⟩ := h
        exact ⟨codeS, hs, codeK, hk, hcode.symm⟩
    · simp [hrequired, unsupported]
  · simp

theorem isCall_multisig {node : Expr} (h : CheckKind.multisig.isCall node = true) :
    ∃ id args span, node = .call (.ident id) args span ∧ id.name = "multisig" := by
  cases node with
  | call callee args span =>
    cases callee with
    | ident id => exact ⟨id, args, span, rfl, by simpa [CheckKind.isCall, CheckKind.name] using h⟩
    | _ => simp [CheckKind.isCall] at h
  | _ => simp [CheckKind.isCall] at h

/-- Compiled instructions are all of them supported. -/
theorem supported_of_compile {code : List Instruction} {bytes : Bytes}
    (h : compileInstructionSequence code = .ok bytes) :
    ∀ kind ∈ kinds code, isUnsupported kind = false := by
  intro kind hkind
  obtain ⟨instruction, hmem, rfl⟩ := List.mem_map.mp hkind
  obtain ⟨part, hpart⟩ := Library.joinAll_isOk.mp ⟨bytes, h⟩ (encodeInstruction instruction)
    (List.mem_map_of_mem hmem)
  cases hsupported : isUnsupported instruction.kind with
  | false => rfl
  | true =>
    obtain ⟨span, kind⟩ := instruction
    cases kind <;> first | exact absurd hsupported Bool.false_ne_true | cases hpart

theorem kinds_assignParams (value : String → Value) (code : List Instruction) :
    kinds (assignParams value code) = (kinds code).map (assignParam value) := by
  simp [kinds, assignParams]

/-- Fed operands are exactly those that the opcode takes. -/
theorem operandsExact_of_fed {required : Nat} {elements : List Expr} {signatures : Expr}
    {span span' : Span} {codeS codeK : List Instruction}
    (hfeeds : FeedsKeyCheck required elements signatures)
    (hfed : AllFed [signatures, .array elements span'])
    (hs : lowerExpr file signatures = .ok codeS)
    (hk : lowerExpr file (.array elements span') = .ok codeK) :
    OperandsExact codeS codeK span required elements.length := by
  intro value env stack operands after hcompile hrun
  have hsupported := supported_of_compile hcompile
  rw [kinds_assignParams] at hsupported
  have hlower : ∀ kind ∈ kinds codeS ++ kinds codeK, isUnsupported kind = false := by
    intro kind hkind
    rw [← @assignParam_isUnsupported value]
    apply hsupported
    apply List.mem_map_of_mem
    simp only [kinds_append, List.mem_append] at hkind ⊢
    tauto
  obtain ⟨hlowerS, hlowerK⟩ := List.forall_mem_append.mp hlower
  have hkeepsS : KeepsTo env value (kinds codeS) (leaves required) := by
    have hlowers := lowers_of_lowerExpr signatures codeS hs
    have hkeeps := @keepsTo_of_lowers env value _ _ hlowers (hfed.sub (by simp +contextual)) hlowerS
    rwa [effect_of_lowers hlowers, List.map_singleton, List.prod_singleton,
      hfeeds.signatures] at hkeeps
  have hkeepsK : KeepsTo env value (kinds codeK) (leaves elements.length) := by
    have hlowers := lowers_of_lowerExpr _ codeK hk
    have hkeeps := @keepsTo_of_lowers env value _ _ hlowers (hfed.sub (by simp +contextual)) hlowerK
    rwa [effect_of_lowers hlowers, List.map_singleton, List.prod_singleton, Expr.effect,
      hfeeds.keys] at hkeeps
  have hops : runOpcodes env (assignedOpcodes value (kinds codeS ++ [.push (.integer required)] ++
      kinds codeK ++ [.push (.integer elements.length)])) stack = some after := by
    rw [(encodes_sequence hcompile).runScript_eq, plainOpcodes, runOps,
      Library.runBranching_plain, kinds_assignParams] at hrun
    simpa [assignedOpcodes, runOpcodes] using hrun
  rw [assignedOpcodes_append, runOpcodes, run_append] at hops
  obtain ⟨s₃, hrun₃, hlast⟩ := Option.bind_eq_some_iff.mp hops
  rw [assignedOpcodes_append, run_append] at hrun₃
  obtain ⟨s₂, hrun₂, hrun₃⟩ := Option.bind_eq_some_iff.mp hrun₃
  rw [assignedOpcodes_append, run_append] at hrun₂
  obtain ⟨s₁, hrun₁, hrun₂⟩ := Option.bind_eq_some_iff.mp hrun₂
  obtain ⟨sigs, hsigs, rfl⟩ := (hkeepsS stack s₁ hrun₁).of_leaves
  have hpush : s₂ = encode required :: (sigs ++ stack) := by
    simpa [assignedOpcodes, assignParam, opcodes, pushOpcode, execOpcode] using hrun₂.symm
  subst hpush
  obtain ⟨ks, hks, rfl⟩ := (hkeepsK _ s₃ hrun₃).of_leaves
  refine ⟨sigs, ks, hsigs, hks, ?_⟩
  simpa [assignedOpcodes, assignParam, opcodes, pushOpcode, execOpcode] using hlast.symm

/-- A real threshold check is fed. -/
theorem fed_of_real {call : Expr} (h : RealThreshold file call) : FedMultisig call := by
  obtain ⟨id, required, span', elements, span'', signatures, span, rfl, hpositive, _,
    ⟨codeS, codeK, hs, hk, heffectS, heffectK, hcall, _⟩, _⟩ := h
  intro id' args spanCall heq hid
  cases heq
  refine ⟨required, span', elements, span'', signatures, rfl, hpositive, ?_, ?_, ?_⟩
  · obtain ⟨_, codeS', codeK', hs', hk', hcode⟩ := (lowerExpr_multisig hid).mp hcall
    have hlast := congrArg List.getLast? hcode
    simp only [emit, List.getLast?_append, List.getLast?_singleton, Option.some_or,
      Option.some.injEq, Instruction.mk.injEq, InstructionKind.checkMultiSig.injEq, true_and] at hlast
    have hcount : elements.length = elements.length % 2 ^ 32 := hlast
    omega
  · rw [effect_of_lowers (lowers_of_lowerExpr _ _ hs)] at heffectS
    simpa using heffectS
  · rw [effect_of_lowers (lowers_of_lowerExpr _ _ hk)] at heffectK
    simpa [Expr.effect] using heffectK

/-- A fed call that is accepted and lowered is a real threshold check. -/
theorem real_of_fed {call : Expr} (hcall : CheckKind.multisig.isCall call = true)
    (hfed : AllFed [call]) (haccepts : cx.Accepts scope call) (hlowered : IsLowered file call) :
    RealThreshold file call := by
  obtain ⟨id, args, span, rfl, hid⟩ := isCall_multisig hcall
  obtain ⟨required, span', elements, span'', signatures, rfl, hfeeds⟩ :=
    hfed (.call (.ident id) args span) (by simp [allNodes, Expr.mem_nodes_self]) id args span rfl hid
  obtain ⟨code, hcode⟩ := hlowered
  obtain ⟨hrequired, codeS, codeK, hs, hk, rfl⟩ := (lowerExpr_multisig hid).mp hcode
  obtain ⟨_, _, _, _, hargs, hle, _⟩ := multisigArgs (callForm_of_accepts haccepts) hid
  simp only [List.cons.injEq, Expr.integer.injEq, and_true] at hargs
  obtain ⟨⟨rfl, rfl⟩, rfl, rfl⟩ := hargs
  have hcount : multisigKeyCount [.integer required span', .array elements span'', signatures] =
      elements.length := Nat.mod_eq_of_lt hfeeds.counted
  refine ⟨id, required, span', elements, span'', signatures, span, rfl, hfeeds.positive,
    hle elements span'' rfl, ⟨codeS, codeK, hs, hk, ?_, ?_, ?_, ?_⟩, ?_⟩
  · rw [effect_of_lowers (lowers_of_lowerExpr _ _ hs)]
    simpa using hfeeds.signatures
  · rw [effect_of_lowers (lowers_of_lowerExpr _ _ hk)]
    simpa [Expr.effect] using hfeeds.keys
  · rw [hcode, hcount]
  · apply operandsExact_of_fed hfeeds _ hs hk
    apply hfed.below
    simp +contextual [Expr.nodes, allNodes]
  · refine ⟨⟨.multisig, required, elements.map expressionLabel, arrayLabels signatures⟩, ?_, rfl,
      rfl, by simp⟩
    simp [requirementOf, callRequirement, hid, hrequired, arrayLabels]

end

/-- Every `multisig` call of an accepted and lowered spend is a real threshold check, in its code
and in its model, exactly when all of them are fed, stand in `require`s and are reached. -/
theorem thresholdsReal_iff (program : Program) (source file : String) (analysis : Analysis)
    (ir : IrProgram) (h : analyzeProgram program source file = .ok analysis)
    (hlower : lowerProgram analysis.program analysis.kipRequirements file = .ok ir) :
    ForSpends (fun spend lowered => ThresholdsReal file spend lowered ↔ ThresholdsFed spend)
      program ir := by
  obtain ⟨haccepted, hprogram, _⟩ := accepted_of_analyzeProgram h
  rw [hprogram] at hlower
  apply (forSpends_iff hlower).mpr
  intro contract hcontract spend hspend lowered hlowered
  have hstmts : ∀ stmt ∈ spend.body,
      ∃ scope, (checkerAt source file contract).Accepts scope stmt.expr :=
    fun stmt hstmt => haccepted.expr hcontract hspend hstmt
  have hkept := @keepsCalls_iff_dropped _ _ .multisig _ _ hstmts hlowered
  constructor
  · intro hreal
    exact ⟨hkept.mp hreal.kept, (listed_iff spend).mp hreal.listed,
      fun call hcall => fed_of_real (hreal.real call hcall)⟩
  · intro hfed
    refine ⟨hkept.mpr hfed.reached, (listed_iff spend).mpr hfed.required, ?_⟩
    intro call hcall
    obtain ⟨hnode, hcheck⟩ := List.mem_filter.mp hcall
    obtain ⟨e, he, hnode⟩ := mem_allNodes.mp hnode
    obtain ⟨stmt, hstmt, rfl⟩ := List.mem_map.mp he
    obtain ⟨scope, haccepts⟩ := hstmts stmt hstmt
    have hlowers := isLowered_of_lowerSpend hlowered hstmt
    have hallFed : AllFed [call] := by
      intro inner hinner id args span heq hid
      have hmem : inner ∈ call.nodes := by simpa [allNodes] using hinner
      apply hfed.fed inner _ id args span heq hid
      apply List.mem_filter.mpr
      refine ⟨mem_allNodes.mpr ⟨stmt.expr, he, Expr.nodes_trans hnode hmem⟩, ?_⟩
      simp [heq, CheckKind.isCall, CheckKind.name, hid]
    have haccepts' := callsAccepted stmt.expr (Or.inl haccepts) call hnode hcheck
    rcases callsReached stmt.expr (Or.inl haccepts) hlowers call hnode hcheck with hpassed | hreached
    · obtain ⟨part, hpart, hmem⟩ := mem_allNodes.mp hpassed
      have hdropped : part ∈ spend.dropped := mem_droppedEach.mpr ⟨stmt.expr, he, hpart⟩
      have hnone := filter_isCall_eq_nil (hfed.reached part hdropped)
      exact absurd hcheck (by simpa using List.filter_eq_nil_iff.mp hnone call hmem)
    · exact real_of_fed hcheck hallFed haccepts' hreached

theorem thresholdsReal_iff_vaultProgram : ∃ ir,
    lowerProgram vaultProgram [10] "vault.ks" = .ok ir ∧
      ForSpends (fun spend lowered =>
        ThresholdsReal "vault.ks" spend lowered ↔ ThresholdsFed spend) vaultProgram ir :=
  ⟨_, rfl, thresholdsReal_iff vaultProgram "" "vault.ks" ⟨vaultProgram, [10], none⟩ _ rfl rfl⟩

/-- `multisig(0, [owner], [])` -/
def openCall : Expr :=
  .call (.ident (nameAt "multisig"))
    [.integer 0 ⟨0, 0⟩, .array [.ident (nameAt "owner")] ⟨0, 0⟩, .array [] ⟨0, 0⟩] ⟨0, 0⟩

/-- `spend claim() { require multisig(0, [owner], []); }` -/
def openSpend : Spend := ⟨nameAt "claim", [], [.require openCall ⟨0, 0⟩], ⟨0, 0⟩⟩

/-- `contract Open { params { owner: PublicKey } spend claim() { .. } }` -/
def openContract : Contract :=
  ⟨nameAt "Open", [⟨nameAt "owner", .publicKey, ⟨0, 0⟩⟩], none, [openSpend], ⟨0, 0⟩⟩

/-- An accepted threshold of zero is lowered to a check that passes without a signature. -/
theorem thresholdsReal_open : ∃ analysis ir,
    analyzeProgram ⟨[openContract]⟩ "" "open.ks" = .ok analysis ∧
    lowerProgram analysis.program analysis.kipRequirements "open.ks" = .ok ir ∧
    ir.contracts.flatMap (fun contract => contract.spends.map fun spend =>
      kinds spend.instructions) =
      [[.push (.integer 0), .push (.symbol "owner"), .checkMultiSig 0 1, .verify]] ∧
    ¬ ForSpends (ThresholdsReal "open.ks") ⟨[openContract]⟩ ir := by
  refine ⟨_, _, rfl, rfl, rfl, ?_⟩
  intro h
  have hspends := (List.forall₂_cons.mp h).1
  have hreal := (List.forall₂_cons.mp hspends).1
  have hcalls : multisigCalls openSpend = [openCall] := rfl
  obtain ⟨_, required, _, _, _, _, _, hcall, hpositive, _⟩ :=
    hreal.real openCall (hcalls ▸ List.mem_singleton_self openCall)
  cases hcall
  exact absurd hpositive (by decide)

end KaspaScript
