import KaspaScript.Semantic.Accepted

namespace KaspaScript

open Checker
open Library (Fresh)

/-- Where an identifier stands: called, accessed by a field, or anywhere else. -/
inductive Position where
  | callee | object | operand
  deriving DecidableEq, Repr

mutual

/-- Every identifier node of an expression with its position; `pos` is that of the root. -/
def identNodes (pos : Position) : Expr → List (Position × Ident)
  | .ident id => [(pos, id)]
  | .integer _ _ | .string _ _ | .bool _ _ => []
  | .array elements _ => allIdentNodes elements
  | .unary _ e _ => identNodes .operand e
  | .binary left _ right _ => identNodes .operand left ++ identNodes .operand right
  | .call callee args _ => identNodes .callee callee ++ allIdentNodes args
  | .field object _ _ => identNodes .object object

def allIdentNodes : List Expr → List (Position × Ident)
  | [] => []
  | e :: rest => identNodes .operand e ++ allIdentNodes rest

end

/-- The names the language gives a meaning to. -/
def languageBuiltins : List String := "continuation" :: builtinNames

/-- The positions where a builtin name is read before any spend of that name. -/
def isExempt : Position → String → Bool
  | .callee, name => builtinCallNames.contains name
  | .object, name => name == "block" || name == "covenant_id" || name == "sequencing"
  | .operand, _ => false

/-- One identifier node is well scoped. -/
structure IdentScoped (spendNames : List String) (declared : String → Prop) (pos : Position)
    (name : String) : Prop where
  known : name ∈ languageBuiltins ∨ declared name
  noSpend : isExempt pos name = false → name ∉ spendNames

theorem mem_allIdentNodes {es : List Expr} {node : Position × Ident} :
    node ∈ allIdentNodes es ↔ ∃ e ∈ es, node ∈ identNodes .operand e := by
  induction es with
  | nil => simp [allIdentNodes]
  | cons e es ih => simp [allIdentNodes, ih]

section

variable {cx : Checker} {scope : Scope}

/-- Every identifier node of an expression is well scoped. -/
def ExprScoped (cx : Checker) (scope : Scope) (pos : Position) (e : Expr) : Prop :=
  ∀ node ∈ identNodes pos e,
    IdentScoped cx.spendNames (fun name => name ∈ scope.names) node.1 node.2.name

theorem identScoped_exempt {pos : Position} {name : String} (hknown : name ∈ languageBuiltins)
    (hexempt : isExempt pos name = true) :
    IdentScoped cx.spendNames (fun name => name ∈ scope.names) pos name := by
  refine ⟨Or.inl hknown, ?_⟩
  intro h
  rw [hexempt] at h
  cases h

theorem exprScoped_exempt {pos : Position} {id : Ident} (hknown : id.name ∈ languageBuiltins)
    (hexempt : isExempt pos id.name = true) : ExprScoped cx scope pos (.ident id) := by
  intro node hnode
  rw [identNodes, List.mem_singleton] at hnode
  subst hnode
  exact identScoped_exempt hknown hexempt

theorem exprScoped_call {callee : Expr} {args : List Expr} {span : Span} {pos : Position}
    (hcallee : ExprScoped cx scope .callee callee)
    (hargs : ∀ arg ∈ args, ExprScoped cx scope .operand arg) :
    ExprScoped cx scope pos (.call callee args span) := by
  intro node hnode
  rw [identNodes, List.mem_append, mem_allIdentNodes] at hnode
  rcases hnode with hnode | ⟨arg, harg, hnode⟩
  · exact hcallee node hnode
  · exact hargs arg harg node hnode

/-- `output(i)` names nothing but the builtin. -/
theorem exprScoped_outputCall {output : Expr} {index : Nat} (h : outputCallIndex output = some index) :
    ExprScoped cx scope .operand output := by
  unfold outputCallIndex at h
  split at h
  · rename_i root value span span'
    split_ifs at h with hroot
    apply exprScoped_call
    · apply exprScoped_exempt <;> rw [hroot.1] <;> decide
    · intro arg harg
      rw [List.mem_singleton] at harg
      subst harg
      simp [ExprScoped, identNodes]
  · cases h

theorem exprScoped_callForm {callee : Expr} {args : List Expr} {span : Span} {pos : Position}
    (hform : CallForm cx scope callee args)
    (ihc : cx.Accepts scope callee → ∀ pos, ExprScoped cx scope pos callee)
    (ihobject : ∀ object field span', callee = .field object field span' →
      cx.Accepts scope object → ∀ pos, ExprScoped cx scope pos object)
    (ih : ∀ arg ∈ args, cx.Accepts scope arg → ∀ pos, ExprScoped cx scope pos arg) :
    ExprScoped cx scope pos (.call callee args span) := by
  have builtin (id : Ident) (hid : id.name ∈ builtinCallNames)
      (hargs : ∀ arg ∈ args, ExprScoped cx scope .operand arg) :
      ExprScoped cx scope pos (.call (.ident id) args span) := by
    apply exprScoped_call _ hargs
    apply exprScoped_exempt
    · have hsubset : ∀ name ∈ builtinCallNames, name ∈ languageBuiltins := by decide
      exact hsubset id.name hid
    · simpa [isExempt] using hid
  cases hform with
  | verify hfield hobject _ hkey _ =>
    apply exprScoped_call
    · intro node hnode
      exact ihobject _ _ _ rfl hobject .object node (by simpa [identNodes] using hnode)
    · intro arg harg
      rw [List.mem_singleton] at harg
      subst harg
      exact ih _ (by simp) hkey .operand
  | index hid _ =>
    apply builtin
    · rcases hid with hid | hid <;> simp [builtinCallNames, hid]
    · simp [ExprScoped, identNodes]
  | continuation hid _ houtput =>
    apply builtin
    · simp [builtinCallNames, hid]
    · intro arg harg
      simp only [List.mem_cons, List.not_mem_nil, or_false] at harg
      rcases harg with rfl | rfl
      · simp [ExprScoped, identNodes]
      · exact exprScoped_outputCall houtput
  | proof hid hproof _ =>
    apply builtin
    · simp [builtinCallNames, hid]
    · intro arg harg
      rw [List.mem_singleton] at harg
      subst harg
      exact ih _ (by simp) hproof .operand
  | hash hid harg' =>
    apply builtin
    · rcases hid with hid | hid | hid <;> simp [builtinCallNames, hid]
    · intro arg harg
      rw [List.mem_singleton] at harg
      subst harg
      exact ih _ (by simp) harg' .operand
  | multisig hid _ hkeys hsignatures =>
    apply builtin
    · simp [builtinCallNames, hid]
    · intro arg harg
      simp only [List.mem_cons, List.not_mem_nil, or_false] at harg
      rcases harg with rfl | rfl | rfl
      · simp [ExprScoped, identNodes]
      · exact ih _ (by simp) hkeys .operand
      · exact ih _ (by simp) hsignatures .operand
  | other _ hcallee hargs =>
    apply exprScoped_call
    · exact ihc hcallee .callee
    · intro arg harg
      exact ih arg harg (hargs arg harg) .operand

theorem exprScoped_fieldForm {object : Expr} {field : Ident} {span : Span} {pos : Position}
    (hform : FieldForm cx scope field object)
    (ih : cx.Accepts scope object → ∀ pos, ExprScoped cx scope pos object) :
    ExprScoped cx scope pos (.field object field span) := by
  have hobject : ExprScoped cx scope .object object := by
    cases hform with
    | clock hroot _ => apply exprScoped_exempt <;> rw [hroot] <;> decide
    | depth hroot _ => apply exprScoped_exempt <;> rw [hroot] <;> decide
    | sequencing hroot => apply exprScoped_exempt <;> rw [hroot] <;> decide
    | access _ haccepts _ => exact ih haccepts .object
  intro node hnode
  exact hobject node (by simpa [identNodes] using hnode)

/-- Inference that reports nothing leaves no identifier out of scope, not even in the parts that
it does not visit. -/
theorem exprScoped_of_accepts (e : Expr) :
    cx.Accepts scope e → ∀ pos, ExprScoped cx scope pos e := by
  -- a call's receiver lies two levels down, so the statement carries the object of a field too
  suffices hboth : (cx.Accepts scope e → ∀ pos, ExprScoped cx scope pos e) ∧
      ∀ object field span, e = .field object field span →
        cx.Accepts scope object → ∀ pos, ExprScoped cx scope pos object from hboth.1
  induction e using Expr.induct with
  | ident id =>
    refine ⟨?_, by simp⟩
    intro h pos node hnode
    obtain ⟨hspend, hknown⟩ := accepts_ident h
    rw [identNodes, List.mem_singleton] at hnode
    subst hnode
    refine ⟨?_, fun _ => hspend⟩
    rcases hknown with hbuiltin | hscope
    · exact Or.inl (List.mem_cons_of_mem _ hbuiltin)
    · exact Or.inr (Scope.contains_iff.mp hscope)
  | integer value span => simp [ExprScoped, identNodes]
  | string value span => simp [ExprScoped, identNodes]
  | bool value span => simp [ExprScoped, identNodes]
  | array elements span ih =>
    refine ⟨?_, by simp⟩
    intro h pos node hnode
    rw [identNodes, mem_allIdentNodes] at hnode
    obtain ⟨element, hmem, hnode⟩ := hnode
    exact (ih element hmem).1 (accepts_array.mp h element hmem) .operand node hnode
  | unary op e span ih =>
    refine ⟨?_, by simp⟩
    intro h pos node hnode
    rw [identNodes] at hnode
    exact ih.1 (accepts_unary h).1 .operand node hnode
  | binary left op right span ihl ihr =>
    refine ⟨?_, by simp⟩
    intro h pos node hnode
    obtain ⟨hleft, hright, _⟩ := accepts_binary h
    rw [identNodes, List.mem_append] at hnode
    rcases hnode with hnode | hnode
    · exact ihl.1 hleft .operand node hnode
    · exact ihr.1 hright .operand node hnode
  | call callee args span ihc ih =>
    refine ⟨?_, by simp⟩
    intro h pos
    exact exprScoped_callForm (callForm_of_accepts h) ihc.1 ihc.2 (fun arg harg => (ih arg harg).1)
  | field object field span ih =>
    constructor
    · intro h pos
      exact exprScoped_fieldForm (fieldForm_of_accepts h) ih.1
    · intro object' field' span' heq
      cases heq
      exact ih.1

end

/-- The names declared before a statement: parameters, and the `let`s above it. -/
def declaredBefore (contract : Contract) (spend : Spend) (pre : List Stmt) : List String :=
  paramNames contract.params ++ paramNames spend.params ++ letNames pre

/-- The scoping rules of the language. -/
structure WellScoped (program : Program) : Prop where
  contracts : (program.contracts.map fun contract => contract.name.name).Nodup
  params : ∀ contract ∈ program.contracts, (paramNames contract.params).Nodup
  spends : ∀ contract ∈ program.contracts,
    (contract.spends.map fun spend => spend.name.name).Nodup
  spendParams : ∀ contract ∈ program.contracts, ∀ spend ∈ contract.spends,
    (paramNames spend.params).Nodup ∧
      ∀ name ∈ paramNames spend.params, name ∉ paramNames contract.params
  lets : ∀ contract ∈ program.contracts, ∀ spend ∈ contract.spends, ∀ pre name e span post,
    spend.body = pre ++ .let name e span :: post →
      name.name ∉ declaredBefore contract spend pre
  idents : ∀ contract ∈ program.contracts, ∀ spend ∈ contract.spends, ∀ pre stmt post,
    spend.body = pre ++ stmt :: post → ∀ node ∈ identNodes .operand stmt.expr,
      IdentScoped (contract.spends.map fun spend => spend.name.name)
        (fun name => name ∈ declaredBefore contract spend pre) node.1 node.2.name

/-- The names in reach at a statement are those declared before it. -/
theorem names_at {cx : Checker} {contract : Contract} {spend : Spend} {pre : List Stmt}
    (h : (cx.checkStmts pre (cx.spendStart contract spend)).Clean) :
    (∀ name ∈ (cx.checkStmts pre (cx.spendStart contract spend)).value.scope.names,
      name ∈ declaredBefore contract spend pre) ∧
    ∀ name ∈ declaredBefore contract spend pre,
      name ∈ (cx.checkStmts pre (cx.spendStart contract spend)).value.localNames ∨
        name ∈ (cx.checkStmts pre (cx.spendStart contract spend)).value.scope.names := by
  obtain ⟨hscope, hlocal, hkeep⟩ := names_checkStmts h
  have hstart := @value_checkSpendParams cx (cx.contractScope contract) spend.params
    ⟨cx.contractScope contract, [], {}, [], false⟩
  obtain ⟨hstartScope, hstartLocal, _⟩ := hstart
  change ∀ name, name ∈ (cx.spendStart contract spend).scope.names ↔ _ at hstartScope
  change ∀ name, name ∈ (cx.spendStart contract spend).localNames ↔ _ at hstartLocal
  unfold declaredBefore
  constructor
  · intro name hname
    rw [List.mem_append, List.mem_append]
    rcases hscope name hname with hlet | hbefore
    · exact Or.inr hlet
    · rcases (hstartScope name).mp hbefore with hparam | hcontract
      · exact Or.inl (Or.inr hparam)
      · exact Or.inl (Or.inl (names_contractScope.mp hcontract))
  · intro name hname
    rw [List.mem_append, List.mem_append] at hname
    rcases hname with (hcontract | hparam) | hlet
    · right
      apply hkeep
      exact (hstartScope name).mpr (Or.inr (names_contractScope.mpr hcontract))
    · left
      exact (hlocal name).mpr (Or.inr ((hstartLocal name).mpr (Or.inl hparam)))
    · left
      exact (hlocal name).mpr (Or.inl hlet)

/-- Accepted programs are well scoped. -/
theorem wellScoped_of_analyzeProgram (program : Program) (source file : String)
    (analysis : Analysis) (h : analyzeProgram program source file = .ok analysis) :
    WellScoped program := by
  obtain ⟨haccepted, _⟩ := accepted_of_analyzeProgram h
  constructor
  · exact haccepted.names.1
  · intro contract hcontract
    exact (haccepted.contract contract hcontract).params.1
  · intro contract hcontract
    exact (haccepted.contract contract hcontract).spends.1
  · intro contract hcontract spend hspend
    have hspends := (haccepted.contract contract hcontract).spend spend hspend
    exact ⟨hspends.fresh.1, hspends.unshadowed⟩
  · intro contract hcontract spend hspend pre name e span post hbody
    have hclean := ((haccepted.contract contract hcontract).spend spend hspend).body
    rw [hbody] at hclean
    obtain ⟨hpre, hstmt⟩ := clean_checkStmts_at hclean
    obtain ⟨hlocal, hscope⟩ := fresh_of_clean_let hstmt
    intro hdeclared
    rcases (names_at hpre).2 name.name hdeclared with hmem | hmem
    · exact hlocal hmem
    · exact hscope hmem
  · intro contract hcontract spend hspend pre stmt post hbody node hnode
    have hclean := ((haccepted.contract contract hcontract).spend spend hspend).body
    rw [hbody] at hclean
    obtain ⟨hpre, hstmt⟩ := clean_checkStmts_at hclean
    have hscoped := exprScoped_of_accepts _ (accepts_stmt hstmt) .operand node hnode
    refine ⟨?_, hscoped.noSpend⟩
    rcases hscoped.known with hbuiltin | hscope
    · exact Or.inl hbuiltin
    · exact Or.inr ((names_at hpre).1 _ hscope)

theorem wellScoped_vaultProgram : WellScoped vaultProgram :=
  wellScoped_of_analyzeProgram vaultProgram "" "vault.ks" ⟨vaultProgram, [10], none⟩ rfl

end KaspaScript
