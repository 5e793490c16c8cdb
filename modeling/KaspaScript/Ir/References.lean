import KaspaScript.Ir.Continuation
import KaspaScript.Ir.Pieces
import KaspaScript.Ir.Reached

namespace KaspaScript

open Checker

mutual

/-- The nodes of an expression that lie in no callee of a call. -/
def Expr.outsideCallees : Expr → List Expr
  | .ident id => [.ident id]
  | .integer value span => [.integer value span]
  | .string value span => [.string value span]
  | .bool value span => [.bool value span]
  | .array elements span => .array elements span :: allOutsideCallees elements
  | .unary op e span => .unary op e span :: e.outsideCallees
  | .binary left op right span =>
      .binary left op right span :: (left.outsideCallees ++ right.outsideCallees)
  | .call callee args span => .call callee args span :: allOutsideCallees args
  | .field object field span => .field object field span :: object.outsideCallees

def allOutsideCallees : List Expr → List Expr
  | [] => []
  | e :: rest => e.outsideCallees ++ allOutsideCallees rest

end

theorem mem_allOutsideCallees {es : List Expr} {node : Expr} :
    node ∈ allOutsideCallees es ↔ ∃ e ∈ es, node ∈ e.outsideCallees := by
  induction es with
  | nil => simp [allOutsideCallees]
  | cons e es ih => simp [allOutsideCallees, ih]

/-- A node that lies in the callee of some call of the list. -/
def InSomeCallee (nodes : List Expr) (node : Expr) : Prop :=
  ∃ callee args span, .call callee args span ∈ nodes ∧ node ∈ callee.nodes

theorem inSomeCallee_append {nodes nodes' : List Expr} {node : Expr} :
    InSomeCallee (nodes ++ nodes') node ↔ InSomeCallee nodes node ∨ InSomeCallee nodes' node := by
  simp only [InSomeCallee, List.mem_append, or_and_right, exists_or]

theorem inSomeCallee_cons {nodes : List Expr} {node head : Expr}
    (hhead : ∀ callee args span, head ≠ .call callee args span) :
    InSomeCallee (head :: nodes) node ↔ InSomeCallee nodes node := by
  have hne : ∀ callee args span, Expr.call callee args span ≠ head :=
    fun callee args span => (hhead callee args span).symm
  simp [InSomeCallee, hne]

theorem inSomeCallee_all {es : List Expr} {node : Expr} :
    InSomeCallee (allNodes es) node ↔ ∃ e ∈ es, InSomeCallee e.nodes node := by
  induction es with
  | nil => simp [InSomeCallee, allNodes]
  | cons e es ih => rw [allNodes, inSomeCallee_append, ih, List.exists_mem_cons_iff]

/-- A node lies outside every callee, or in one. -/
theorem mem_nodes_iff {node : Expr} (e : Expr) :
    node ∈ e.nodes ↔ node ∈ e.outsideCallees ∨ InSomeCallee e.nodes node := by
  have all {es : List Expr}
      (ih : ∀ e ∈ es, node ∈ e.nodes ↔ node ∈ e.outsideCallees ∨ InSomeCallee e.nodes node) :
      node ∈ allNodes es ↔ node ∈ allOutsideCallees es ∨ InSomeCallee (allNodes es) node := by
    rw [mem_allNodes, mem_allOutsideCallees, inSomeCallee_all, ← exists_or]
    apply exists_congr
    intro e
    rw [← and_or_left]
    exact and_congr_right (ih e)
  induction e using Expr.induct with
  | array elements span ih =>
    rw [Expr.nodes, Expr.outsideCallees, inSomeCallee_cons (by simp), List.mem_cons, List.mem_cons,
      all ih, or_assoc]
  | unary op e span ih =>
    rw [Expr.nodes, Expr.outsideCallees, inSomeCallee_cons (by simp), List.mem_cons, List.mem_cons,
      or_assoc]
    exact or_congr Iff.rfl ih
  | binary left op right span ihl ihr =>
    rw [Expr.nodes, Expr.outsideCallees, inSomeCallee_cons (by simp), List.mem_cons, List.mem_cons,
      inSomeCallee_append, List.mem_append, List.mem_append, or_assoc, or_or_or_comm]
    exact or_congr Iff.rfl (or_congr ihl ihr)
  | call callee args span ihc ih =>
    have hself : InSomeCallee [.call callee args span] node ↔ node ∈ callee.nodes := by
      simp [InSomeCallee]
    have hsplit : InSomeCallee (.call callee args span :: (callee.nodes ++ allNodes args)) node ↔
        node ∈ callee.nodes ∨ InSomeCallee callee.nodes node ∨
          InSomeCallee (allNodes args) node := by
      rw [← List.singleton_append, inSomeCallee_append, inSomeCallee_append, hself]
    rw [Expr.nodes, Expr.outsideCallees, hsplit, List.mem_cons, List.mem_cons, List.mem_append,
      all ih]
    have hcallee : InSomeCallee callee.nodes node → node ∈ callee.nodes :=
      fun h => ihc.mpr (Or.inr h)
    tauto
  | field object field span ih =>
    rw [Expr.nodes, Expr.outsideCallees, inSomeCallee_cons (by simp), List.mem_cons, List.mem_cons,
      or_assoc]
    exact or_congr Iff.rfl ih
  | _ =>
    rw [Expr.nodes, Expr.outsideCallees, inSomeCallee_cons (by simp)]
    simp [InSomeCallee]

theorem exists_mem_append {P : Expr → Prop} {xs ys : List Expr} :
    (∃ e ∈ xs ++ ys, P e) ↔ (∃ e ∈ xs, P e) ∨ ∃ e ∈ ys, P e := by
  simp only [List.mem_append, or_and_right, exists_or]

/-- The call `input(i)` or `output(i)`. -/
def IndexCall (subject : CountSubject) (i : Nat) (node : Expr) : Prop :=
  ∃ id span rest span', id.name = subject.callName ∧
    node = .call (.ident id) (.integer i span :: rest) span'

section

variable {subject : CountSubject} {i : Nat}

theorem ne_callName {text : String} {c : Char} (hmem : c ∈ text.toList) (hc : c.isLower = false) :
    text ≠ subject.callName := by
  intro h
  have hlower : subject.callName.toList.all Char.isLower = true := by
    cases subject <;> rfl
  rw [h] at hmem
  rw [List.all_eq_true.mp hlower c hmem] at hc
  cases hc

theorem isLower_of_isDigit {c : Char} (h : c.isDigit = true) : c.isLower = false := by
  have hnine : c.val ≤ '9'.val := by
    simp only [Char.isDigit, Bool.and_eq_true, decide_eq_true_eq] at h
    exact h.2
  have hlow : ¬ 'a'.val ≤ c.val := by
    rw [UInt32.le_iff_toNat_le] at hnine ⊢
    exact Nat.not_le_of_lt (Nat.lt_of_le_of_lt hnine (by decide))
  exact Bool.and_eq_false_iff.mpr (Or.inl (decide_eq_false hlow))

/-- No expression but a name is printed as the name of an index call. -/
theorem display_ne_callName {e : Expr} (hident : ∀ id, e ≠ .ident id) :
    (normalizeExpression e).display ≠ subject.callName := by
  cases e with
  | ident id => exact absurd rfl (hident id)
  | integer value span =>
    obtain ⟨hsome, hdigits⟩ := toString_digits value
    obtain ⟨c, hc⟩ := List.exists_mem_of_ne_nil _ hsome
    exact ne_callName hc (isLower_of_isDigit (hdigits c hc))
  | string value span =>
    apply ne_callName (c := '"') _ (by decide)
    simp [normalizeExpression, NormalizedExpression.display, debugString]
  | bool value span =>
    rw [normalizeExpression]
    cases value <;> cases subject <;> decide
  | array elements span =>
    apply ne_callName (c := '[') _ (by decide)
    simp [normalizeExpression, NormalizedExpression.display]
  | unary op e span =>
    cases op with
    | not =>
      apply ne_callName (c := '!') _ (by decide)
      simp [normalizeExpression, NormalizedExpression.display, normalizeUnaryOperator,
        UnaryOperator.display]
    | negate =>
      apply ne_callName (c := '-') _ (by decide)
      simp [normalizeExpression, NormalizedExpression.display, normalizeUnaryOperator,
        UnaryOperator.display]
  | binary left op right span =>
    apply ne_callName (c := ' ') _ (by decide)
    simp [normalizeExpression, NormalizedExpression.display]
  | call callee args span =>
    apply ne_callName (c := '(') _ (by decide)
    simp [normalizeExpression, NormalizedExpression.display]
  | field object field span =>
    apply ne_callName (c := '.') _ (by decide)
    simp [normalizeExpression, NormalizedExpression.display]

/-- The callee of an index call is read off its path. -/
theorem expressionPath_eq_callName {callee : Expr} :
    expressionPath (normalizeExpression callee) callee = subject.callName ↔
      ∃ id, callee = .ident id ∧ id.name = subject.callName := by
  cases callee with
  | ident id =>
    simp [expressionPath]
  | field object field span =>
    have hdot : expressionPath (normalizeExpression (.field object field span))
        (.field object field span) ≠ subject.callName := by
      apply ne_callName (c := '.') _ (by decide)
      simp [normalizeExpression, expressionPath]
    simp [hdot]
  | _ =>
    rw [expressionPath]
    · simp [display_ne_callName]
    · simp
    · simp

theorem normalizeAll_eq_map (es : List Expr) : normalizeAll es = es.map normalizeExpression := by
  induction es with
  | nil => rfl
  | cons e es ih => rw [normalizeAll, ih, List.map_cons]

theorem normalize_eq_integer {e : Expr} :
    normalizeExpression e = .integer i ↔ ∃ span, e = .integer i span := by
  cases e <;> simp [normalizeExpression]

/-- A call gives its own index exactly when it is an index call whose literal fits `u32`. -/
theorem indexReference_iff {callee : Expr} {args : List Expr} {span : Span} :
    indexReference (expressionPath (normalizeExpression callee) callee) (normalizeAll args) =
        some (subject.callName, i) ↔
      i ≤ u32Max ∧ IndexCall subject i (.call callee args span) := by
  rw [normalizeAll_eq_map]
  constructor
  · intro h
    unfold indexReference at h
    split at h
    · rename_i value _ hargs
      split_ifs at h with hindex
      rw [Option.some.injEq, Prod.mk.injEq] at h
      obtain ⟨hpath, hvalue⟩ := h
      obtain ⟨id, hcallee, hid⟩ := expressionPath_eq_callName.mp hpath
      obtain ⟨arg, rest, hargs', harg, _⟩ := List.map_eq_cons_iff.mp hargs
      obtain ⟨span', harg⟩ := normalize_eq_integer.mp harg
      subst hcallee hargs' harg hvalue
      exact ⟨hindex.1, id, span', rest, span, hid, rfl⟩
    · cases h
  · intro h
    obtain ⟨hfits, id, span', rest, _, hid, heq⟩ := h
    cases heq
    have hpath : expressionPath (normalizeExpression (.ident id)) (.ident id) = subject.callName :=
      expressionPath_eq_callName.mpr ⟨id, rfl, hid⟩
    have hname : subject.callName = "input" ∨ subject.callName = "output" := by
      cases subject
      · exact Or.inl rfl
      · exact Or.inr rfl
    rw [hpath, List.map_cons, normalizeExpression]
    exact if_pos ⟨hfits, hname⟩

theorem collectAllIndexes_eq (es : List NormalizedExpression) :
    collectAllIndexes es = es.flatMap collectTransactionIndexes := by
  induction es with
  | nil => rfl
  | cons e es ih => rw [collectAllIndexes, ih, List.flatMap_cons]

theorem indexCall_call {node : Expr} (h : IndexCall subject i node) :
    ∃ callee args span, node = .call callee args span := by
  obtain ⟨id, span, rest, span', _, rfl⟩ := h
  exact ⟨_, _, _, rfl⟩

/-- The collected indexes are those of the index calls that lie in no callee. -/
theorem mem_collectTransactionIndexes (e : Expr) :
    (subject.callName, i) ∈ collectTransactionIndexes (normalizeExpression e) ↔
      ∃ node ∈ e.outsideCallees, i ≤ u32Max ∧ IndexCall subject i node := by
  have all {es : List Expr}
      (ih : ∀ e ∈ es, (subject.callName, i) ∈ collectTransactionIndexes (normalizeExpression e) ↔
        ∃ node ∈ e.outsideCallees, i ≤ u32Max ∧ IndexCall subject i node) :
      (subject.callName, i) ∈ collectAllIndexes (normalizeAll es) ↔
        ∃ node ∈ allOutsideCallees es, i ≤ u32Max ∧ IndexCall subject i node := by
    rw [collectAllIndexes_eq, normalizeAll_eq_map, List.flatMap_map, List.mem_flatMap]
    constructor
    · intro h
      obtain ⟨e, he, hmem⟩ := h
      obtain ⟨node, hnode, hindex⟩ := (ih e he).mp hmem
      exact ⟨node, mem_allOutsideCallees.mpr ⟨e, he, hnode⟩, hindex⟩
    · intro h
      obtain ⟨node, hnode, hindex⟩ := h
      obtain ⟨e, he, hnode⟩ := mem_allOutsideCallees.mp hnode
      exact ⟨e, he, (ih e he).mpr ⟨node, hnode, hindex⟩⟩
  have hno (head : Expr) (hhead : ∀ callee args span, head ≠ .call callee args span) :
      ¬ (i ≤ u32Max ∧ IndexCall subject i head) := by
    intro h
    obtain ⟨callee, args, span, heq⟩ := indexCall_call h.2
    exact hhead callee args span heq
  induction e using Expr.induct with
  | array elements span ih =>
    rw [normalizeExpression, collectTransactionIndexes, Expr.outsideCallees,
      List.exists_mem_cons_iff, all ih]
    simp only [hno (.array elements span) (by simp), false_or]
  | unary op e span ih =>
    rw [normalizeExpression, collectTransactionIndexes, Expr.outsideCallees,
      List.exists_mem_cons_iff]
    simpa only [hno (.unary op e span) (by simp), false_or] using ih
  | binary left op right span ihl ihr =>
    rw [normalizeExpression, collectTransactionIndexes, Expr.outsideCallees,
      List.exists_mem_cons_iff, List.mem_append, exists_mem_append]
    simpa only [hno (.binary left op right span) (by simp), false_or] using or_congr ihl ihr
  | call callee args span ihc ih =>
    rw [normalizeExpression, collectTransactionIndexes, Expr.outsideCallees,
      List.exists_mem_cons_iff, List.mem_append, all ih, Option.mem_toList,
      indexReference_iff]
  | field object field span ih =>
    rw [normalizeExpression, collectTransactionIndexes, Expr.outsideCallees,
      List.exists_mem_cons_iff]
    simpa only [hno (.field object field span) (by simp), false_or] using ih
  | _ =>
    rw [normalizeExpression, collectTransactionIndexes, Expr.outsideCallees]
    simpa using hno _ (by simp)

/-- The indexes that a model lists for one subject. -/
def TransactionShape.referenced (shape : TransactionShape) : CountSubject → List Nat
  | .input => shape.referencedInputs
  | .output => shape.referencedOutputs

/-- Some `require` has an index call outside every callee. -/
def Exposed (spend : Spend) (subject : CountSubject) (i : Nat) : Prop :=
  ∃ e ∈ requireExprs spend, ∃ node ∈ e.outsideCallees, IndexCall subject i node

/-- Some `require` has an index call inside the callee of a call. -/
def InCallee (spend : Spend) (subject : CountSubject) (i : Nat) : Prop :=
  ∃ e ∈ requireExprs spend, ∃ node, InSomeCallee e.nodes node ∧ IndexCall subject i node

variable {spend : Spend}

theorem referenced_iff : Referenced spend subject i ↔
    ∃ e ∈ requireExprs spend, ∃ node ∈ e.nodes, IndexCall subject i node := by
  constructor
  · intro h
    obtain ⟨e, he, id, span, rest, span', hid, hnode⟩ := h
    exact ⟨e, he, _, hnode, id, span, rest, span', hid, rfl⟩
  · intro h
    obtain ⟨e, he, node, hnode, id, span, rest, span', hid, heq⟩ := h
    subst heq
    exact ⟨e, he, id, span, rest, span', hid, hnode⟩

/-- A referenced index is exposed, or hidden in a callee. -/
theorem referenced_split :
    Referenced spend subject i ↔ Exposed spend subject i ∨ InCallee spend subject i := by
  rw [referenced_iff]
  constructor
  · intro h
    obtain ⟨e, he, node, hnode, hindex⟩ := h
    rcases (mem_nodes_iff e).mp hnode with hout | hin
    · exact Or.inl ⟨e, he, node, hout, hindex⟩
    · exact Or.inr ⟨e, he, node, hin, hindex⟩
  · intro h
    rcases h with ⟨e, he, node, hout, hindex⟩ | ⟨e, he, node, hin, hindex⟩
    · exact ⟨e, he, node, (mem_nodes_iff e).mpr (Or.inl hout), hindex⟩
    · exact ⟨e, he, node, (mem_nodes_iff e).mpr (Or.inr hin), hindex⟩

theorem mem_referencedIndexes {function : String} {references : List (String × Nat)} :
    i ∈ referencedIndexes function references ↔ (function, i) ∈ references := by
  unfold referencedIndexes
  rw [mem_sortedSet, List.mem_filterMap]
  constructor
  · intro h
    obtain ⟨⟨name, index⟩, hmem, hreference⟩ := h
    obtain ⟨hname, hindex⟩ := Option.ite_none_right_eq_some.mp hreference
    cases hindex
    rw [← hname]
    exact hmem
  · intro hmem
    exact ⟨(function, i), hmem, if_pos rfl⟩

theorem mem_referenced :
    i ∈ (buildTransitionModel spend).transactionShape.referenced subject ↔
      i ≤ u32Max ∧ Exposed spend subject i := by
  have hlist : (buildTransitionModel spend).transactionShape.referenced subject =
      referencedIndexes subject.callName (((requireExprs spend).map fun expr =>
        (⟨classifyConstraint expr, normalizeExpression expr, expr.span⟩ : Constraint)).flatMap
          fun constraint => collectTransactionIndexes constraint.expression) := by
    cases subject <;> rfl
  rw [hlist, mem_referencedIndexes, List.flatMap_map, List.mem_flatMap]
  constructor
  · intro h
    obtain ⟨e, he, hmem⟩ := h
    obtain ⟨node, hnode, hfits, hindex⟩ := (mem_collectTransactionIndexes e).mp hmem
    exact ⟨hfits, e, he, node, hnode, hindex⟩
  · intro h
    obtain ⟨hfits, e, he, node, hnode, hindex⟩ := h
    exact ⟨e, he, (mem_collectTransactionIndexes e).mpr ⟨node, hnode, hfits, hindex⟩⟩

theorem pairwise_referenced :
    ((buildTransitionModel spend).transactionShape.referenced subject).Pairwise (· < ·) := by
  cases subject <;> exact pairwise_sortedSet _

/-- The literal of an accepted index call fits `u32`. -/
theorem index_le_of_accepted {cx : Checker} {scope : Scope} {e node : Expr}
    (he : cx.Accepts scope e) (hnode : node ∈ e.nodes) (hindex : IndexCall subject i node) :
    i ≤ u32Max := by
  obtain ⟨id, span, rest, span', hid, rfl⟩ := hindex
  rcases callsSeen e (Or.inl he) _ _ _ hnode with haccepts | houtput
  · have hname : id.name = "input" ∨ id.name = "output" := by
      cases subject
      · exact Or.inl hid
      · exact Or.inr hid
    cases callForm_of_accepts haccepts with
    | index _ hfits => exact hfits
    | _ => grind [isBuiltinCallee, builtinCallNames]
  · unfold outputCallIndex at houtput
    split at houtput
    · rename_i heq
      cases heq
      split_ifs at houtput with hroot
      · exact hroot.2
      · cases houtput
    · cases houtput

/-- The listed indexes are complete exactly when no index is referenced in callees only. -/
theorem referenced_complete_iff (program : Program) (source file : String) (analysis : Analysis)
    (h : analyzeProgram program source file = .ok analysis) :
    ∀ contract ∈ program.contracts, ∀ spend ∈ contract.spends, ∀ subject : CountSubject,
      let listed := (buildTransitionModel spend).transactionShape.referenced subject
      (listed.Pairwise (· < ·) ∧ ∀ i, i ∈ listed ↔ Referenced spend subject i) ↔
        ∀ i, InCallee spend subject i → Exposed spend subject i := by
  intro contract hcontract spend hspend subject listed
  have hfits : ∀ i, Referenced spend subject i → i ≤ u32Max := by
    intro i hreferenced
    obtain ⟨e, he, node, hnode, hindex⟩ := referenced_iff.mp hreferenced
    obtain ⟨span, hmem⟩ := mem_requireExprs.mp he
    obtain ⟨haccepted, _⟩ := accepted_of_analyzeProgram h
    obtain ⟨scope, haccepts⟩ := haccepted.expr hcontract hspend hmem
    exact index_le_of_accepted haccepts hnode hindex
  constructor
  · intro h i hin
    obtain ⟨_, hcomplete⟩ := h
    have hmem := (hcomplete i).mpr (referenced_split.mpr (Or.inr hin))
    exact (mem_referenced.mp hmem).2
  · intro hexposed
    refine ⟨pairwise_referenced, ?_⟩
    intro i
    rw [mem_referenced]
    constructor
    · intro h
      obtain ⟨_, hout⟩ := h
      exact referenced_split.mpr (Or.inl hout)
    · intro hreferenced
      refine ⟨hfits i hreferenced, ?_⟩
      rcases referenced_split.mp hreferenced with hout | hin
      · exact hout
      · exact hexposed i hin

end

theorem referenced_complete_differing :
    ((buildTransitionModel differingSpend).transactionShape.referenced .output).Pairwise (· < ·) ∧
    ∀ i, i ∈ (buildTransitionModel differingSpend).transactionShape.referenced .output ↔
      Referenced differingSpend .output i := by
  apply (referenced_complete_iff ⟨[differingContract]⟩ "" "drift.ks" _ rfl differingContract
    (List.mem_singleton_self _) differingSpend (List.mem_singleton_self _) .output).mpr
  intro i h
  obtain ⟨e, he, node, ⟨callee, args, span, hcall, hnode⟩, hindex⟩ := h
  obtain ⟨_, _, _, hnodeCall⟩ := indexCall_call hindex
  obtain ⟨span', hmem⟩ := mem_requireExprs.mp he
  rw [differingSpend, List.mem_singleton] at hmem
  cases hmem
  -- the only callee is the name `output`
  simp only [Expr.nodes, allNodes, List.mem_cons, List.mem_append, List.not_mem_nil, or_false,
    reduceCtorEq, false_or, Expr.call.injEq] at hcall
  rw [hcall.1, Expr.nodes, List.mem_singleton] at hnode
  rw [hnode] at hnodeCall
  cases hnodeCall

/-- `require input(3).value(1);` -/
def calledSpend : Spend :=
  ⟨nameAt "move", [],
    [.require (.call (.field (.call (.ident (nameAt "input")) [.integer 3 ⟨0, 0⟩] ⟨0, 0⟩)
      (nameAt "value") ⟨0, 0⟩) [.integer 1 ⟨0, 0⟩] ⟨0, 0⟩) ⟨0, 0⟩], ⟨0, 0⟩⟩

/-- `contract Called { params { owner: PublicKey } spend move() { .. } }` -/
def calledContract : Contract :=
  ⟨nameAt "Called", [⟨nameAt "owner", .publicKey, ⟨0, 0⟩⟩], none, [calledSpend], ⟨0, 0⟩⟩

/-- An accepted spend reads the value of input 3, and its model lists no input. -/
theorem referenced_incomplete_called : ∃ analysis ir,
    analyzeProgram ⟨[calledContract]⟩ "" "called.ks" = .ok analysis ∧
    lowerProgram analysis.program analysis.kipRequirements "called.ks" = .ok ir ∧
    ir.contracts.flatMap (fun contract => contract.spends.map fun spend =>
      kinds spend.instructions) = [[.inputValue 3, .push (.integer 1), .verify]] ∧
    Referenced calledSpend .input 3 ∧
    (buildTransitionModel calledSpend).transactionShape.referenced .input = [] := by
  refine ⟨_, _, rfl, rfl, rfl, ?_, rfl⟩
  refine ⟨_, List.mem_singleton_self _, nameAt "input", ⟨0, 0⟩, [], ⟨0, 0⟩, rfl, ?_⟩
  simp [Expr.nodes]

end KaspaScript
