import KaspaScript.Codegen.Declared
import KaspaScript.Ir.Shape

namespace KaspaScript

open Checker (outputCallIndex)

theorem collectAllNamed_eq {es : List Expr}
    (ih : ∀ e ∈ es, collectNamedSuccessorOutputs e = e.nodes.filterMap namedSuccessorOutput) :
    collectAllNamedSuccessorOutputs es = (allNodes es).filterMap namedSuccessorOutput := by
  induction es with
  | nil => rfl
  | cons e es ihes =>
    rw [collectAllNamedSuccessorOutputs, allNodes, List.filterMap_append,
      ih e List.mem_cons_self, ihes fun e' he' => ih e' (List.mem_cons_of_mem _ he')]

/-- The collected names are those of the `continuation` calls among the nodes, in their order. -/
theorem collectNamed_eq (e : Expr) :
    collectNamedSuccessorOutputs e = e.nodes.filterMap namedSuccessorOutput := by
  induction e using Expr.induct with
  | array elements span ih =>
    rw [collectNamedSuccessorOutputs, Expr.nodes, List.filterMap_cons_none rfl,
      collectAllNamed_eq ih]
  | unary op e span ih =>
    rw [collectNamedSuccessorOutputs, Expr.nodes, List.filterMap_cons_none rfl]
    exact ih
  | binary left op right span ihl ihr =>
    rw [collectNamedSuccessorOutputs, Expr.nodes, List.filterMap_cons_none rfl,
      List.filterMap_append]
    exact congrArg₂ (· ++ ·) ihl ihr
  | call callee args span ihc ih =>
    have hcallee : collectNamedSuccessorOutputs callee =
      callee.nodes.filterMap namedSuccessorOutput := ihc
    rw [collectNamedSuccessorOutputs, Expr.nodes, List.filterMap_cons, List.filterMap_append,
      collectAllNamed_eq ih, hcallee, List.append_assoc]
    cases namedSuccessorOutput (.call callee args span) <;> rfl
  | field object field span ih =>
    rw [collectNamedSuccessorOutputs, Expr.nodes, List.filterMap_cons_none rfl]
    exact ih
  | _ => rfl

theorem mem_collectNamed {named : NamedContinuationOutput} (e : Expr) :
    named ∈ collectNamedSuccessorOutputs e ↔
      ∃ node ∈ e.nodes, namedSuccessorOutput node = some named := by
  rw [collectNamed_eq, List.mem_filterMap]

/-- A comparison, of any relation, of the field of output `i`; the left side is looked at first. -/
def ComparesOutput (field : OutputField) (i : Nat) (e : Expr) : Prop :=
  ∃ left op right span, e = .binary left op right span ∧
    (outputField left = some (i, field) ∨
      outputField left = none ∧ outputField right = some (i, field))

/-- An equality between the field of output `i` and another expression. -/
def PinsOutput (field : OutputField) (i : Nat) (target bound e : Expr) : Prop :=
  outputField target = some (i, field) ∧
    ∃ span, e = .binary target .equal bound span ∨ e = .binary bound .equal target span

section

variable {spend : Spend} {field : OutputField} {i : Nat}

def Compared (spend : Spend) (field : OutputField) (i : Nat) : Prop :=
  ∃ e ∈ requireExprs spend, ComparesOutput field i e

def Pinned (spend : Spend) (field : OutputField) (i : Nat) : Prop :=
  ∃ e ∈ requireExprs spend, ∃ target bound, PinsOutput field i target bound e

/-- Some `require` labels output `i` as a continuation, anywhere in it. -/
def Labelled (spend : Spend) (i : Nat) : Prop :=
  ∃ e ∈ requireExprs spend, ∃ node ∈ e.nodes, ∃ name, namedSuccessorOutput node = some ⟨name, i⟩

theorem outputBinding_iff {e : Expr} :
    (∃ binding, outputBinding e = some binding ∧ binding.field = field ∧ binding.outputIndex = i) ↔
      ComparesOutput field i e := by
  constructor
  · intro ⟨binding, h, hfield, hindex⟩
    subst hfield hindex
    unfold outputBinding at h
    split at h
    · split at h
      · rename_i hleft
        cases h
        exact ⟨_, _, _, _, rfl, Or.inl hleft⟩
      · rename_i hleft hright
        cases h
        exact ⟨_, _, _, _, rfl, Or.inr ⟨hleft, hright⟩⟩
      · cases h
    · cases h
  · intro ⟨left, op, right, span, he, h⟩
    subst he
    rcases h with hleft | ⟨hleft, hright⟩
    · simp [outputBinding, hleft]
    · simp [outputBinding, hleft, hright]

/-- The indexes that the continuation model takes for bound. -/
def boundOutputs (spend : Spend) (field : OutputField) : List Nat :=
  (((requireExprs spend).filterMap outputBinding).filter (·.field = field)).map
    OutputBinding.outputIndex

def labelledOutputs (spend : Spend) : List NamedContinuationOutput :=
  (requireExprs spend).flatMap collectNamedSuccessorOutputs

theorem mem_boundOutputs : i ∈ boundOutputs spend field ↔ Compared spend field i := by
  unfold boundOutputs Compared
  simp only [List.mem_map, List.mem_filter, List.mem_filterMap, decide_eq_true_eq,
    ← outputBinding_iff]
  constructor
  · intro ⟨binding, ⟨⟨e, he, hbinding⟩, hfield⟩, hindex⟩
    exact ⟨e, he, binding, hbinding, hfield, hindex⟩
  · intro ⟨e, he, binding, hbinding, hfield, hindex⟩
    exact ⟨binding, ⟨⟨e, he, hbinding⟩, hfield⟩, hindex⟩

theorem mem_labelledOutputs :
    i ∈ (labelledOutputs spend).map NamedContinuationOutput.outputIndex ↔ Labelled spend i := by
  unfold labelledOutputs Labelled
  simp only [List.mem_map, List.mem_flatMap, mem_collectNamed]
  constructor
  · intro ⟨named, ⟨e, he, node, hnode, hnamed⟩, hindex⟩
    subst hindex
    exact ⟨e, he, node, hnode, named.name, hnamed⟩
  · intro ⟨e, he, node, hnode, name, hnamed⟩
    exact ⟨⟨name, i⟩, ⟨e, he, node, hnode, hnamed⟩, rfl⟩

theorem boundOutputs_ne_nil : boundOutputs spend field ≠ [] ↔ ∃ i, Compared spend field i := by
  constructor
  · intro hne
    obtain ⟨i, hi⟩ := List.exists_mem_of_ne_nil _ hne
    exact ⟨i, mem_boundOutputs.mp hi⟩
  · intro ⟨i, hi⟩
    exact List.ne_nil_of_mem (mem_boundOutputs.mpr hi)

theorem continuation_eq : (buildTransitionModel spend).continuation =
    continuationModel ((requireExprs spend).filterMap outputBinding) (labelledOutputs spend) := rfl

/-- Covenant comparisons decide the kind first, script comparisons next. -/
theorem continuation_covenant (h : ∃ i, Compared spend .covenantId i) :
    (buildTransitionModel spend).continuation.kind = .covenantLineageBound ∧
      ∀ i, i ∈ (buildTransitionModel spend).continuation.successorOutputs ↔
        Compared spend .covenantId i ∨ Labelled spend i := by
  have hbound := boundOutputs_ne_nil.mpr h
  unfold boundOutputs at hbound
  rw [continuation_eq]
  simp only [continuationModel, if_pos hbound]
  refine ⟨trivial, ?_⟩
  intro i
  rw [mem_sortedSet, List.mem_append, mem_labelledOutputs, ← mem_boundOutputs]
  rfl

theorem continuation_script (hno : ¬ ∃ i, Compared spend .covenantId i)
    (h : ∃ i, Compared spend .script i) :
    (buildTransitionModel spend).continuation.kind = .outputScriptBound ∧
      ∀ i, i ∈ (buildTransitionModel spend).continuation.successorOutputs ↔
        Compared spend .script i ∨ Labelled spend i := by
  have hbound := boundOutputs_ne_nil.mpr h
  have hunbound : ¬ boundOutputs spend .covenantId ≠ [] := by
    rw [boundOutputs_ne_nil]
    exact hno
  unfold boundOutputs at hbound hunbound
  rw [continuation_eq]
  simp only [continuationModel, if_neg hunbound, if_pos hbound]
  refine ⟨trivial, ?_⟩
  intro i
  rw [mem_sortedSet, List.mem_append, mem_labelledOutputs, ← mem_boundOutputs]
  rfl

theorem continuation_unbound (hno : ¬ ∃ i, Compared spend .covenantId i)
    (hno' : ¬ ∃ i, Compared spend .script i) :
    (buildTransitionModel spend).continuation.kind = .namedOutput ∨
      (buildTransitionModel spend).continuation.kind = .unspecified := by
  have hunbound : ¬ boundOutputs spend .covenantId ≠ [] := by
    rw [boundOutputs_ne_nil]
    exact hno
  have hunbound' : ¬ boundOutputs spend .script ≠ [] := by
    rw [boundOutputs_ne_nil]
    exact hno'
  unfold boundOutputs at hunbound hunbound'
  rw [continuation_eq]
  simp only [continuationModel, if_neg hunbound, if_neg hunbound']
  split_ifs
  · exact Or.inl rfl
  · exact Or.inr rfl

end

/-- Equalities among the atoms compare the values of their sides. -/
def EqualityMeans {V : Type} (value : Expr → V) (atom : Expr → Bool) : Prop :=
  ∀ left right span, atom (.binary left .equal right span) = true ↔ value left = value right

/-- Some `require` pins the field of output `i` to an expression: under whatever satisfies the
spend, the field has the value of that expression. -/
def Backed (spend : Spend) (field : OutputField) (i : Nat) : Prop :=
  ∃ e ∈ requireExprs spend, ∃ target bound, PinsOutput field i target bound e ∧
    ∀ (V : Type) (value : Expr → V) (atom : Expr → Bool), EqualityMeans value atom →
      (∀ e ∈ requireExprs spend, holdsUnder atom e = true) → value target = value bound

theorem backed_iff {spend : Spend} {field : OutputField} {i : Nat} :
    Backed spend field i ↔ Pinned spend field i := by
  constructor
  · intro ⟨e, he, target, bound, hpins, _⟩
    exact ⟨e, he, target, bound, hpins⟩
  · intro ⟨e, he, target, bound, htarget, span, hequal⟩
    refine ⟨e, he, target, bound, ⟨htarget, span, hequal⟩, ?_⟩
    intro V value atom hmeans hrequires
    have htrue := hrequires e he
    rcases hequal with rfl | rfl
    · exact (hmeans target bound span).mp htrue
    · exact ((hmeans bound target span).mp htrue).symm

/-- The field that a continuation kind makes a statement about. -/
def boundField : ContinuationKind → Option OutputField
  | .covenantLineageBound => some .covenantId
  | .outputScriptBound => some .script
  | .namedOutput | .unspecified => none

/-- The continuation kind is no stronger than the source: every successor output of a bound kind
is backed by an equality. -/
def StrengthBacked (spend : Spend) : Prop :=
  ∀ field, boundField (buildTransitionModel spend).continuation.kind = some field →
    ∀ i ∈ (buildTransitionModel spend).continuation.successorOutputs, Backed spend field i

/-- The outputs that are compared in the deciding field, and those that are labelled, are all
equated in it. -/
structure EqualitiesOnly (spend : Spend) : Prop where
  covenant : (∃ i, Compared spend .covenantId i) →
    ∀ i, Compared spend .covenantId i ∨ Labelled spend i → Pinned spend .covenantId i
  script : (¬ ∃ i, Compared spend .covenantId i) → (∃ i, Compared spend .script i) →
    ∀ i, Compared spend .script i ∨ Labelled spend i → Pinned spend .script i

/-- The strength is backed exactly when no compared or labelled output lacks its equality. -/
theorem strengthBacked_iff (spend : Spend) : StrengthBacked spend ↔ EqualitiesOnly spend := by
  constructor
  · intro h
    constructor
    · intro hcovenant i hi
      obtain ⟨hkind, hmem⟩ := continuation_covenant hcovenant
      apply backed_iff.mp
      apply h
      · rw [hkind]
        rfl
      · exact (hmem i).mpr hi
    · intro hno hscript i hi
      obtain ⟨hkind, hmem⟩ := continuation_script hno hscript
      apply backed_iff.mp
      apply h
      · rw [hkind]
        rfl
      · exact (hmem i).mpr hi
  · intro h field hfield i hi
    apply backed_iff.mpr
    by_cases hcovenant : ∃ i, Compared spend .covenantId i
    · obtain ⟨hkind, hmem⟩ := continuation_covenant hcovenant
      rw [hkind, boundField, Option.some.injEq] at hfield
      subst hfield
      exact h.covenant hcovenant i ((hmem i).mp hi)
    · by_cases hscript : ∃ i, Compared spend .script i
      · obtain ⟨hkind, hmem⟩ := continuation_script hcovenant hscript
        rw [hkind, boundField, Option.some.injEq] at hfield
        subst hfield
        exact h.script hcovenant hscript i ((hmem i).mp hi)
      · rcases continuation_unbound hcovenant hscript with hkind | hkind <;>
        · rw [hkind] at hfield
          cases hfield

/-- `require output(0).script != owner;` -/
def differingSpend : Spend :=
  ⟨nameAt "move", [],
    [.require (.binary (.field (.call (.ident (nameAt "output")) [.integer 0 ⟨0, 0⟩] ⟨0, 0⟩)
      (nameAt "script") ⟨0, 0⟩) .notEqual (.ident (nameAt "owner")) ⟨0, 0⟩) ⟨0, 0⟩], ⟨0, 0⟩⟩

/-- `contract Drift { params { owner: PublicKey } spend move() { .. } }` -/
def differingContract : Contract :=
  ⟨nameAt "Drift", [⟨nameAt "owner", .publicKey, ⟨0, 0⟩⟩], none, [differingSpend], ⟨0, 0⟩⟩

/-- An accepted spend that asks output 0 for another script than the owner's is reported as
binding that script. -/
theorem strengthBacked_differing :
    analyzeProgram ⟨[differingContract]⟩ "" "drift.ks" = .ok ⟨⟨[differingContract]⟩, [10], none⟩ ∧
      (buildTransitionModel differingSpend).continuation.kind = .outputScriptBound ∧
      (buildTransitionModel differingSpend).continuation.successorOutputs = [0] ∧
      ¬ StrengthBacked differingSpend := by
  refine ⟨rfl, rfl, rfl, ?_⟩
  intro h
  obtain ⟨e, he, target, bound, ⟨_, span, hequal⟩, _⟩ := h .script rfl 0 List.mem_cons_self
  obtain ⟨span', hmem⟩ := mem_requireExprs.mp he
  rw [differingSpend, List.mem_singleton] at hmem
  rcases hequal with rfl | rfl <;> cases hmem

end KaspaScript
