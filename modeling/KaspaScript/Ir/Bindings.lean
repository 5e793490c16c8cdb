import KaspaScript.Ir.Successors

namespace KaspaScript

open Checker

/-- How values are compared: `>` and `>=` are `<` and `<=` with the sides swapped. -/
structure Comparisons (V : Type) where
  less : V → V → Prop
  lessEqual : V → V → Prop
  equal : V → V → Prop
  notEqual : V → V → Prop
  equal_symm : ∀ a b, equal a b ↔ equal b a
  notEqual_symm : ∀ a b, notEqual a b ↔ notEqual b a

/-- The six relations that compare two values. -/
def IsComparison : BinaryOperator → Prop
  | .equal | .notEqual | .greater | .greaterEqual | .less | .lessEqual => True
  | .or | .and | .add | .sub | .mul | .div | .mod => False

namespace Comparisons

variable {V : Type} (cmp : Comparisons V)

def Holds : BinaryOperator → V → V → Prop
  | .equal, a, b => cmp.equal a b
  | .notEqual, a, b => cmp.notEqual a b
  | .less, a, b => cmp.less a b
  | .lessEqual, a, b => cmp.lessEqual a b
  | .greater, a, b => cmp.less b a
  | .greaterEqual, a, b => cmp.lessEqual b a
  | .or, _, _ | .and, _, _ | .add, _, _ | .sub, _, _ | .mul, _, _ | .div, _, _ | .mod, _, _ => False

/-- A binary expression is true where its sides have values that compare so. -/
def Requires (value : Expr → V) : Expr → Prop
  | .binary left op right _ => cmp.Holds (normalizeBinaryOperator op) (value left) (value right)
  | _ => False

/-- A relation holds of the swapped sides as the mirrored one does. -/
theorem holds_reverse (relation : BinaryOperator) (a b : V) :
    cmp.Holds (reverseRelation relation) b a ↔ cmp.Holds relation a b := by
  cases relation with
  | equal => exact cmp.equal_symm b a
  | notEqual => exact cmp.notEqual_symm b a
  | _ => exact Iff.rfl

end Comparisons

theorem isComparison_reverse {relation : BinaryOperator} (h : IsComparison relation) :
    IsComparison (reverseRelation relation) := by
  cases relation <;> exact h

/-- What the source's operators make of two values, either of which may be missing. -/
def comparesAs (op : BinaryOp) (a b : Option Val) : Prop :=
  (a.bind fun l => b.bind fun r => evalBinary op l r) = some (.bool true)

theorem comparesAs_swap {op op' : BinaryOp} (h : ∀ a b, evalBinary op a b = evalBinary op' b a)
    (a b : Option Val) : comparesAs op a b ↔ comparesAs op' b a := by
  unfold comparesAs
  cases a with
  | none => cases b <;> exact Iff.rfl
  | some a =>
    cases b with
    | none => exact Iff.rfl
    | some b => exact iff_of_eq (congrArg (· = some (Val.bool true)) (h a b))

theorem evalBinary_equal_symm (a b : Val) : evalBinary .equal a b = evalBinary .equal b a := by
  cases a <;> cases b <;> simp [evalBinary, eq_comm]

theorem evalBinary_notEqual_symm (a b : Val) :
    evalBinary .notEqual a b = evalBinary .notEqual b a := by
  cases a <;> cases b <;> simp [evalBinary, eq_comm]

/-- The comparisons of the source language. -/
def valComparisons : Comparisons (Option Val) where
  less := comparesAs .less
  lessEqual := comparesAs .lessEqual
  equal := comparesAs .equal
  notEqual := comparesAs .notEqual
  equal_symm := comparesAs_swap evalBinary_equal_symm
  notEqual_symm := comparesAs_swap evalBinary_notEqual_symm

theorem evalBinary_greater (a b : Val) : evalBinary .greater a b = evalBinary .less b a := by
  cases a <;> cases b <;> rfl

theorem evalBinary_greaterEqual (a b : Val) :
    evalBinary .greaterEqual a b = evalBinary .lessEqual b a := by
  cases a <;> cases b <;> rfl

theorem comparesAs_iff {op : BinaryOp} (h : IsComparison (normalizeBinaryOperator op))
    (a b : Option Val) :
    comparesAs op a b ↔ valComparisons.Holds (normalizeBinaryOperator op) a b := by
  cases op with
  | greater => exact comparesAs_swap evalBinary_greater a b
  | greaterEqual => exact comparesAs_swap evalBinary_greaterEqual a b
  | equal | notEqual | less | lessEqual => exact Iff.rfl
  | or | and | add | sub | mul | div | mod => exact h.elim

/-- `output(i)` with one of the fields that a binding can be about. -/
def OutputOperand (i : Nat) (field : OutputField) (e : Expr) : Prop :=
  ∃ root name span span' span'', root.name = "output" ∧ name.name = field.display ∧
    e = .field (.call (.ident root) [.integer i span] span') name span''

def isOutputOperand : Expr → Bool
  | .field (.call (.ident root) [.integer _ _] _) field _ =>
      root.name == "output" &&
        (field.name == "value" || field.name == "script" || field.name == "covenant_id")
  | _ => false

/-- A binary expression one of whose operands is a field of an output. -/
def hasOutputOperand : Expr → Bool
  | .binary left _ right _ => isOutputOperand left || isOutputOperand right
  | _ => false

theorem outputField_eq_some {e : Expr} {i : Nat} {field : OutputField}
    (h : outputField e = some (i, field)) : OutputOperand i field e := by
  unfold outputField at h
  split at h
  · split at h
    · rename_i hindex hname
      cases h
      obtain ⟨root, span, span', hroot, _, rfl⟩ := outputCallIndex_eq_some hindex
      exact ⟨root, _, span, span', _, hroot, hname, rfl⟩
    · rename_i hindex hname
      cases h
      obtain ⟨root, span, span', hroot, _, rfl⟩ := outputCallIndex_eq_some hindex
      exact ⟨root, _, span, span', _, hroot, hname, rfl⟩
    · rename_i hindex hname
      cases h
      obtain ⟨root, span, span', hroot, _, rfl⟩ := outputCallIndex_eq_some hindex
      exact ⟨root, _, span, span', _, hroot, hname, rfl⟩
    · cases h
  · cases h

theorem isOutputOperand_of_outputField {e : Expr} {i : Nat} {field : OutputField}
    (h : outputField e = some (i, field)) : isOutputOperand e = true := by
  obtain ⟨root, name, span, span', span'', hroot, hname, rfl⟩ := outputField_eq_some h
  cases field <;> simp [isOutputOperand, hroot, hname, OutputField.display]

section

variable {cx : Checker} {scope : Scope}

/-- An accepted field of an output is read as such. -/
theorem outputField_of_accepted {e : Expr} (he : cx.Accepts scope e)
    (h : isOutputOperand e = true) : ∃ i field, outputField e = some (i, field) := by
  unfold isOutputOperand at h
  split at h
  · rename_i root value valueSpan callSpan name span
    simp only [Bool.and_eq_true, Bool.or_eq_true, beq_iff_eq, or_assoc] at h
    obtain ⟨hroot, hname⟩ := h
    have hfits : value ≤ u32Max := by
      cases fieldForm_of_accepts he with
      | access _ hobject _ =>
        cases callForm_of_accepts hobject with
        | index _ hfits => exact hfits
        | _ => grind [isBuiltinCallee, builtinCallNames]
    have hindex := @outputCallIndex_eq root value valueSpan callSpan hroot hfits
    rcases hname with hname | hname | hname <;>
    · simp only [outputField, hindex, hname]
      exact ⟨_, _, rfl⟩
  · cases h

theorem typeOf_outputOperand {i : Nat} {field : OutputField} {e : Expr}
    (h : OutputOperand i field e) : cx.typeOf scope e ≠ some .bool := by
  obtain ⟨root, name, span, span', span'', hroot, hname, rfl⟩ := h
  have hobject : (cx.inferExpr scope (.call (.ident root) [.integer i span] span')).value =
      some .output := by
    simp [inferExpr, inferCall, hroot, checkIndexCall]
  rw [typeOf, inferExpr]
  cases field <;>
  · simp only [inferField, Library.Collect.value_bind, hobject, hname, OutputField.display]
    simp

/-- A `Bool` comparison is all that an output operand can stand in. -/
theorem isComparison_of_accepted {left right : Expr} {op : BinaryOp} {span : Span}
    (he : cx.Accepts scope (.binary left op right span))
    (hbool : cx.typeOf scope (.binary left op right span) = some .bool)
    (h : isOutputOperand left = true ∨ isOutputOperand right = true) :
    IsComparison (normalizeBinaryOperator op) := by
  obtain ⟨hleft, hright, hlogical⟩ := accepts_binary he
  have hoperand : ¬ (cx.typeOf scope left = some .bool ∧ cx.typeOf scope right = some .bool) := by
    intro hboth
    rcases h with h | h
    · obtain ⟨i, field, hfield⟩ := outputField_of_accepted hleft h
      exact typeOf_outputOperand (outputField_eq_some hfield) hboth.1
    · obtain ⟨i, field, hfield⟩ := outputField_of_accepted hright h
      exact typeOf_outputOperand (outputField_eq_some hfield) hboth.2
  cases op with
  | equal | notEqual | greater | greaterEqual | less | lessEqual => exact trivial
  | or => exact absurd (hlogical (Or.inr rfl)) hoperand
  | and => exact absurd (hlogical (Or.inl rfl)) hoperand
  | add | sub | mul | div | mod =>
    rw [typeOf, inferExpr] at hbool
    simp at hbool

end

/-- The output field that a binary expression compares, and what with; the left side is looked at
first. -/
inductive Compares : Expr → Expr → Expr → Prop
  | left {l op r span} : isOutputOperand l = true → Compares (.binary l op r span) l r
  | right {l op r span} : isOutputOperand l = false → isOutputOperand r = true →
      Compares (.binary l op r span) r l

/-- A bound that the clock has to reach: a lock, which aborts instead of being false. -/
def ComparesClock (e : Expr) : Prop :=
  ∃ left right span, e = .binary left .greaterEqual right span ∧ isLockRead left = true

/-- A binding stands for a require: it names the compared field, and the require is true exactly
when the field is in its relation to what it expects, whatever the values of the operands. -/
structure BindsRequire (e : Expr) (binding : OutputBinding) (target expected : Expr) : Prop where
  compares : Compares e target expected
  field : OutputOperand binding.outputIndex binding.field target
  expects : binding.expected = normalizeExpression expected
  relation : IsComparison binding.relation
  means : ∀ (V : Type) (cmp : Comparisons V) (value : Expr → V),
    cmp.Requires value e ↔ cmp.Holds binding.relation (value target) (value expected)
  evaluates : ∀ cx : Context, ¬ ComparesClock e →
    (cx.holds e = true ↔
      valComparisons.Holds binding.relation (cx.eval target) (cx.eval expected))
  reaches : ∀ cx : Context, ComparesClock e →
    (cx.holds e = true ↔ ((cx.eval target).bind cx.evalLock) = some (.bool true))

/-- Off the clock a comparison is true where the values of its sides compare so. -/
theorem holds_comparison {left right : Expr} {op : BinaryOp} {span : Span}
    (hop : IsComparison (normalizeBinaryOperator op)) (cx : Context)
    (hclock : ¬ ComparesClock (.binary left op right span)) :
    cx.holds (.binary left op right span) = true ↔
      valComparisons.Requires cx.eval (.binary left op right span) := by
  have hnot : ¬ (op = .greaterEqual ∧ isLockRead left = true) := by
    intro hlock
    obtain ⟨rfl, hread⟩ := hlock
    exact hclock ⟨left, right, span, rfl, hread⟩
  rw [Context.holds, decide_eq_true_eq, Context.eval, if_neg hnot]
  exact comparesAs_iff hop _ _

theorem holds_clock {left right : Expr} {span : Span} (h : isLockRead left = true) (cx : Context) :
    cx.holds (.binary left .greaterEqual right span) = true ↔
      ((cx.eval right).bind cx.evalLock) = some (.bool true) := by
  rw [Context.holds, decide_eq_true_eq, Context.eval, if_pos ⟨rfl, h⟩]

theorem isOutputOperand_of_isLockRead {e : Expr} (h : isLockRead e = true) :
    isOutputOperand e = false := by
  unfold isLockRead at h
  split at h
  · rfl
  · cases h

theorem bindsRequire_left {left right : Expr} {op : BinaryOp} {span : Span} {i : Nat}
    {field : OutputField} (h : outputField left = some (i, field))
    (hop : IsComparison (normalizeBinaryOperator op)) :
    BindsRequire (.binary left op right span)
      ⟨i, field, normalizeBinaryOperator op, normalizeExpression right⟩ left right := by
  have hoperand := isOutputOperand_of_outputField h
  constructor
  · exact .left hoperand
  · exact outputField_eq_some h
  · rfl
  · exact hop
  · intro V cmp value
    exact Iff.rfl
  · intro cx hclock
    exact holds_comparison hop cx hclock
  · intro cx hclock
    obtain ⟨left', right', span', heq, hread⟩ := hclock
    cases heq
    rw [isOutputOperand_of_isLockRead hread] at hoperand
    cases hoperand

theorem bindsRequire_right {left right : Expr} {op : BinaryOp} {span : Span} {i : Nat}
    {field : OutputField} (hleft : isOutputOperand left = false)
    (h : outputField right = some (i, field)) (hop : IsComparison (normalizeBinaryOperator op)) :
    BindsRequire (.binary left op right span)
      ⟨i, field, reverseRelation (normalizeBinaryOperator op), normalizeExpression left⟩ right
      left := by
  constructor
  · exact .right hleft (isOutputOperand_of_outputField h)
  · exact outputField_eq_some h
  · rfl
  · exact isComparison_reverse hop
  · intro V cmp value
    exact (cmp.holds_reverse _ _ _).symm
  · intro cx hclock
    rw [holds_comparison hop cx hclock]
    exact (valComparisons.holds_reverse _ _ _).symm
  · intro cx hclock
    obtain ⟨left', right', span', heq, hread⟩ := hclock
    cases heq
    exact holds_clock hread cx

/-- The binding of an accepted require with an output operand. -/
theorem bindsRequire_of_accepted {cx : Checker} {scope : Scope} {e : Expr}
    (he : cx.Accepts scope e) (hbool : cx.typeOf scope e = some .bool)
    (h : hasOutputOperand e = true) :
    ∃ binding, outputBinding e = some binding ∧
      ∃ target expected, BindsRequire e binding target expected := by
  unfold hasOutputOperand at h
  split at h
  · rename_i left op right span
    obtain ⟨hleft, hright, _⟩ := accepts_binary he
    rw [Bool.or_eq_true] at h
    have hop := isComparison_of_accepted he hbool h
    cases hside : isOutputOperand left with
    | true =>
      obtain ⟨i, field, hfield⟩ := outputField_of_accepted hleft hside
      exact ⟨_, by simp [outputBinding, hfield], left, right, bindsRequire_left hfield hop⟩
    | false =>
      rw [hside] at h
      obtain ⟨i, field, hfield⟩ := outputField_of_accepted hright (by simpa using h)
      have hnone : outputField left = none := by
        cases hsome : outputField left with
        | none => rfl
        | some found =>
          rw [@isOutputOperand_of_outputField _ found.1 found.2 hsome] at hside
          cases hside
      exact ⟨_, by simp [outputBinding, hnone, hfield], right, left,
        bindsRequire_right hside hfield hop⟩
  · cases h

/-- A require without an output operand has no binding. -/
theorem outputBinding_of_other {e : Expr} (h : hasOutputOperand e = false) :
    outputBinding e = none := by
  cases hbinding : outputBinding e with
  | none => rfl
  | some binding =>
    unfold outputBinding at hbinding
    split at hbinding
    · rw [hasOutputOperand, Bool.or_eq_false_iff] at h
      split at hbinding
      · rename_i hfield
        rw [isOutputOperand_of_outputField hfield] at h
        cases h.1
      · rename_i hfield
        rw [isOutputOperand_of_outputField hfield] at h
        cases h.2
      · cases hbinding
    · cases hbinding

/-- The bindings of an accepted spend are, in order, one for each require that compares a field of
an output, and each says what its require says. -/
theorem outputBindings_exact (program : Program) (source file : String) (analysis : Analysis)
    (h : analyzeProgram program source file = .ok analysis) :
    ∀ contract ∈ program.contracts, ∀ spend ∈ contract.spends,
      List.Forall₂ (fun e binding => ∃ target expected, BindsRequire e binding target expected)
        ((requireExprs spend).filter hasOutputOperand)
        (buildTransitionModel spend).outputBindings := by
  intro contract hcontract spend hspend
  change List.Forall₂ _ _ ((requireExprs spend).filterMap outputBinding)
  obtain ⟨haccepted, _⟩ := accepted_of_analyzeProgram h
  apply forall₂_filterMap
  · intro e he houtput
    obtain ⟨span, hmem⟩ := mem_requireExprs.mp he
    obtain ⟨scope, haccepts, hbool⟩ := haccepted.require hcontract hspend hmem
    exact bindsRequire_of_accepted haccepts hbool houtput
  · intro e _ hother
    exact outputBinding_of_other hother

/-- `5 < output(0).value` -/
def abovePar : Expr :=
  .binary (.integer 5 ⟨0, 0⟩) .less
    (.field (.call (.ident (nameAt "output")) [.integer 0 ⟨0, 0⟩] ⟨0, 0⟩) (nameAt "value") ⟨0, 0⟩)
    ⟨0, 0⟩

/-- `require 5 < output(0).value;` -/
def mirroredSpend : Spend := ⟨nameAt "move", [], [.require abovePar ⟨0, 0⟩], ⟨0, 0⟩⟩

/-- `contract Mirrored { params { owner: PublicKey } spend move() { .. } }` -/
def mirroredContract : Contract :=
  ⟨nameAt "Mirrored", [⟨nameAt "owner", .publicKey, ⟨0, 0⟩⟩], none, [mirroredSpend], ⟨0, 0⟩⟩

theorem outputBindings_exact_mirrored :
    (buildTransitionModel mirroredSpend).outputBindings = [⟨0, .value, .greater, .integer 5⟩] ∧
      ∃ target expected, BindsRequire abovePar ⟨0, .value, .greater, .integer 5⟩ target expected := by
  refine ⟨rfl, ?_⟩
  have hexact := outputBindings_exact ⟨[mirroredContract]⟩ "" "mirrored.ks" _ rfl mirroredContract
    (List.mem_singleton_self _) mirroredSpend (List.mem_singleton_self _)
  exact (List.forall₂_cons.mp hexact).1

end KaspaScript
