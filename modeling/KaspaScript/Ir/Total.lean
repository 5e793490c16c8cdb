import KaspaScript.Ir.Gen
import KaspaScript.Semantic.Accepted

namespace KaspaScript

open Checker
open Library (joinAll joinAll_isOk mapM_isOk)

/-- The two things that a checked program may contain and that are not lowered: unary minus, and
keys of `multisig` that are no array literal with a `u32` length. -/
structure PlainNode (node : Expr) : Prop where
  noNegate : ∀ e span, node ≠ .unary .negate e span
  keys : ∀ id args span, node = .call (.ident id) args span → id.name = "multisig" →
    ∃ elements span', args[1]? = some (.array elements span') ∧ elements.length < 2 ^ 32

def Plain (e : Expr) : Prop := ∀ node ∈ e.nodes, PlainNode node

section

variable {cx : Checker} {scope : Scope} {file : String}

theorem mem_lowerEach {es : List Expr} {code : Lowered} :
    code ∈ lowerEach file es ↔ ∃ e ∈ es, code = lowerExpr file e := by
  induction es with
  | nil => simp [lowerEach]
  | cons e es ih => simp [lowerEach, ih]

/-- The expression is lowered without an error. -/
def IsLowered (file : String) (e : Expr) : Prop := ∃ code, lowerExpr file e = .ok code

theorem joinAll_lowerEach_isOk {es : List Expr} (h : ∀ e ∈ es, IsLowered file e) :
    ∃ code, joinAll (lowerEach file es) = .ok code := by
  apply joinAll_isOk.mpr
  intro x hx
  obtain ⟨e, he, rfl⟩ := mem_lowerEach.mp hx
  exact h e he

theorem isLowered_unary {e : Expr} {span : Span} (h : IsLowered file e) :
    IsLowered file (.unary .not e span) := by
  obtain ⟨code, hcode⟩ := h
  refine ⟨code ++ emit span .not, ?_⟩
  rw [lowerExpr, hcode]
  rfl

theorem isLowered_lock {right : Expr} {span : Span} {literal : Nat → InstructionKind}
    {fromStack : InstructionKind} (h : IsLowered file right) :
    ∃ code, lowerLock right span literal fromStack (lowerExpr file right) = .ok code := by
  obtain ⟨code, hcode⟩ := h
  cases right with
  | integer value span' => exact ⟨_, rfl⟩
  | _ =>
    refine ⟨code ++ emit span fromStack, ?_⟩
    simp only [lowerLock, hcode]
    rfl

theorem isLowered_binary {left right : Expr} {op : BinaryOp} {span : Span}
    (hleft : IsLowered file left) (hright : IsLowered file right) :
    IsLowered file (.binary left op right span) := by
  unfold IsLowered
  rw [lowerExpr, lowerBinary, lowerSpecialBinary]
  by_cases hheight : op = .greaterEqual ∧ isPath left ["block", "height"]
  · rw [if_pos hheight]
    exact isLowered_lock hright
  · rw [if_neg hheight]
    by_cases htime : op = .greaterEqual ∧ isPath left ["block", "time"]
    · rw [if_pos htime]
      exact isLowered_lock hright
    · rw [if_neg htime]
      obtain ⟨l, hl⟩ := hleft
      obtain ⟨r, hr⟩ := hright
      refine ⟨l ++ r ++ emit span (binaryKind op), ?_⟩
      rw [hl, hr]
      rfl

theorem isLowered_unrecognized {callee : Expr} {args : List Expr}
    (hcallee : IsLowered file callee) (hargs : ∀ arg ∈ args, IsLowered file arg) :
    ∃ code, (do
      let code ← lowerExpr file callee
      let rest ← joinAll (lowerEach file args)
      pure (code ++ rest) : Lowered) = .ok code := by
  obtain ⟨code, hcode⟩ := hcallee
  obtain ⟨rest, hrest⟩ := joinAll_lowerEach_isOk hargs
  refine ⟨code ++ rest, ?_⟩
  rw [hcode, hrest]
  rfl

theorem isLowered_first {arg : Expr} {span : Span} {kind : InstructionKind}
    (h : IsLowered file arg) : ∃ code, lowerFirst (lowerEach file [arg]) span kind = .ok code := by
  obtain ⟨code, hcode⟩ := h
  refine ⟨code ++ emit span kind, ?_⟩
  simp [lowerFirst, lowerEach, joinAll, hcode, pure, Except.pure]

theorem isLowered_verify {object key : Expr} {field : Ident} {span span' : Span}
    (hfield : field.name = "verify") (hobject : IsLowered file object)
    (hkey : IsLowered file key) :
    IsLowered file (.call (.field object field span') [key] span) := by
  obtain ⟨o, ho⟩ := hobject
  obtain ⟨k, hk⟩ := hkey
  refine ⟨o ++ k ++ emit span (.checkSig 0), ?_⟩
  rw [lowerExpr]
  simp [lowerCall, hfield, lowerEach, joinAll, ho, hk, pure, Except.pure]

theorem isLowered_multisig {required : Nat} {keys signatures : Expr} {span span' : Span}
    (hrequired : required ≤ u32Max) (hkeys : IsLowered file keys)
    (hsignatures : IsLowered file signatures) :
    ∃ code, lowerMultisig file [.integer required span', keys, signatures] span
      (lowerEach file [.integer required span', keys, signatures]) = .ok code := by
  obtain ⟨k, hk⟩ := hkeys
  obtain ⟨s, hs⟩ := hsignatures
  simp [lowerMultisig, hrequired, lowerEach, joinAll, hk, hs, pure, Except.pure]

theorem isLowered_continuation {args : List Expr} {span : Span} {index : Nat}
    (h : args[1]?.bind outputCallIndex = some index) :
    ∃ code, lowerContinuation file args span = .ok code := by
  simp [lowerContinuation, h]

/-- Every way a checked call can look has a successful lowering. -/
theorem isLowered_callForm {callee : Expr} {args : List Expr} {span : Span}
    (hform : CallForm cx scope callee args)
    (hplain : PlainNode (.call callee args span))
    (ihc : cx.Accepts scope callee → IsLowered file callee)
    (ihobject : ∀ object field span', callee = .field object field span' →
      cx.Accepts scope object → IsLowered file object)
    (ih : ∀ arg ∈ args, cx.Accepts scope arg → IsLowered file arg) :
    IsLowered file (.call callee args span) := by
  cases hform with
  | verify hfield hobject _ hkey _ =>
    exact isLowered_verify hfield (ihobject _ _ _ rfl hobject) (ih _ (by simp) hkey)
  | index hid hvalue =>
    unfold IsLowered
    rw [lowerExpr]
    · rcases hid with hid | hid <;> simp [lowerCall, hid, lowerIndexCall, hvalue]
    · simp
  | continuation hid _ houtput =>
    unfold IsLowered
    rw [lowerExpr]
    · simp only [lowerCall, hid]
      exact isLowered_continuation houtput
    · simp
  | proof hid hproof _ =>
    unfold IsLowered
    rw [lowerExpr]
    · simp only [lowerCall, hid]
      exact isLowered_first (ih _ (by simp) hproof)
    · simp
  | hash hid harg =>
    unfold IsLowered
    rw [lowerExpr]
    · rcases hid with hid | hid | hid <;> simp only [lowerCall, hid]
      · exact isLowered_first (ih _ (by simp) harg)
      · exact isLowered_first (ih _ (by simp) harg)
      · exact isLowered_first (ih _ (by simp) harg)
    · simp
  | @multisig id required span' keys signatures hid hle hkeys hsignatures =>
    obtain ⟨elements, span'', hget, hlength⟩ := hplain.keys id _ span rfl hid
    have harray : keys = .array elements span'' := by simpa using hget
    have hrequired : required ≤ u32Max := by
      have hcount := hle elements span'' harray
      unfold u32Max
      omega
    unfold IsLowered
    rw [lowerExpr]
    · simp only [lowerCall, hid]
      exact isLowered_multisig hrequired (ih keys (by simp) hkeys)
        (ih signatures (by simp) hsignatures)
    · simp
  | other hcallee haccepts hargs =>
    have hunrecognized := isLowered_unrecognized (ihc haccepts)
      (fun arg harg => ih arg harg (hargs arg harg))
    unfold IsLowered
    cases callee with
    | field object field span' =>
      rw [lowerExpr]
      have hfield : field.name ≠ "verify" := by simpa [isBuiltinCallee] using hcallee
      simp only [lowerCall, if_neg hfield]
      exact hunrecognized
    | ident id =>
      rw [lowerExpr]
      · simp only [lowerCall]
        split <;> first | exact hunrecognized | simp_all [isBuiltinCallee, builtinCallNames]
      · simp
    | _ =>
      rw [lowerExpr]
      · exact hunrecognized
      · simp

theorem indexedKind_isSome {root field : String} (index : Nat)
    (hroot : root = "input" ∨ root = "output")
    (hfield : field = "value" ∨ field = "script" ∨ field = "covenant_id") :
    ∃ kind, indexedKind root field index = some kind := by
  rcases hroot with rfl | rfl <;> rcases hfield with rfl | rfl | rfl <;> exact ⟨_, rfl⟩

/-- An indexed object that passes the checks has one literal index. -/
theorem accepts_indexedObject {object : Expr} {root : String} {args : List Expr}
    (hobject : indexedObject object = some (root, args)) (h : cx.Accepts scope object) :
    ∃ value span, args = [.integer value span] ∧ value ≤ u32Max ∧
      (root = "input" ∨ root = "output") ∧
      (cx.typeOf scope object = some .input ∨ cx.typeOf scope object = some .output) := by
  unfold indexedObject at hobject
  split at hobject
  · rename_i id args' span
    split_ifs at hobject with hid
    cases hobject
    have hform := callForm_of_accepts h
    obtain ⟨value, span', rfl, hvalue⟩ : ∃ value span', args = [.integer value span'] ∧
        value ≤ u32Max := by
      cases hform with
      | index _ hvalue => exact ⟨_, _, rfl, hvalue⟩
      | other hcallee _ _ =>
        rcases hid with hid | hid <;> simp [isBuiltinCallee, builtinCallNames, hid] at hcallee
      | hash hhash _ => rcases hid with hid | hid <;> simp [hid] at hhash
      | _ => simp_all
    refine ⟨value, span', rfl, hvalue, hid, ?_⟩
    unfold typeOf
    rw [inferExpr]
    · rcases hid with hid | hid
      · left
        simp [inferCall, hid, checkIndexCall, Nat.not_lt_of_ge hvalue]
      · right
        simp [inferCall, hid, checkIndexCall, Nat.not_lt_of_ge hvalue]
    · simp
  · cases hobject

theorem isLowered_field {object : Expr} {field : Ident} {span : Span}
    (hform : FieldForm cx scope field object)
    (ih : cx.Accepts scope object → IsLowered file object) :
    IsLowered file (.field object field span) := by
  unfold IsLowered
  rw [lowerExpr]
  have pushed (hobject : indexedObject object = none) (hlower : IsLowered file object) :
      ∃ code, lowerField file object field.name span (lowerExpr file object) = .ok code := by
    obtain ⟨code, hcode⟩ := hlower
    simp only [lowerField, hobject, hcode]
    split_ifs <;> exact ⟨_, rfl⟩
  have rooted (root : Ident) : IsLowered file (.ident root) := by
    unfold IsLowered
    rw [lowerExpr]
    split <;> exact ⟨_, rfl⟩
  cases hform with
  | clock _ _ => exact pushed rfl (rooted _)
  | depth _ _ => exact pushed rfl (rooted _)
  | sequencing _ => exact pushed rfl (rooted _)
  | access _ haccepts hfield =>
    cases hobject : indexedObject object with
    | none => exact pushed hobject (ih haccepts)
    | some indexed =>
      obtain ⟨root, args⟩ := indexed
      obtain ⟨value, span', rfl, hvalue, hroot, hty⟩ := accepts_indexedObject hobject haccepts
      obtain ⟨kind, hkind⟩ := indexedKind_isSome value hroot (hfield hty)
      simp [lowerField, hobject, hvalue, hkind]

/-- Whatever inference lets pass is lowered. -/
theorem isLowered_of_accepts (e : Expr) : cx.Accepts scope e → Plain e → IsLowered file e := by
  -- a call's receiver lies two levels down, so the statement carries the object of a field too
  suffices hboth : (cx.Accepts scope e → Plain e → IsLowered file e) ∧
      ∀ object field span, e = .field object field span →
        cx.Accepts scope object → Plain object → IsLowered file object from hboth.1
  induction e using Expr.induct with
  | ident id =>
    refine ⟨?_, by simp⟩
    intro _ _
    unfold IsLowered
    rw [lowerExpr]
    split <;> exact ⟨_, rfl⟩
  | integer value span => exact ⟨fun _ _ => ⟨_, rfl⟩, by simp⟩
  | string value span => exact ⟨fun _ _ => ⟨_, rfl⟩, by simp⟩
  | bool value span => exact ⟨fun _ _ => ⟨_, rfl⟩, by simp⟩
  | array elements span ih =>
    refine ⟨?_, by simp⟩
    intro h hplain
    unfold IsLowered
    rw [lowerExpr]
    apply joinAll_lowerEach_isOk
    intro element hmem
    apply (ih element hmem).1 (accepts_array.mp h element hmem)
    intro node hnode
    apply hplain
    simp only [Expr.nodes, List.mem_cons, mem_allNodes]
    exact Or.inr ⟨element, hmem, hnode⟩
  | unary op e span ih =>
    refine ⟨?_, by simp⟩
    intro h hplain
    cases op with
    | not =>
      apply isLowered_unary
      apply ih.1 (accepts_unary h).1
      intro node hnode
      exact hplain node (by simp [Expr.nodes, hnode])
    | negate => exact absurd rfl ((hplain _ (Expr.mem_nodes_self _)).noNegate e span)
  | binary left op right span ihl ihr =>
    refine ⟨?_, by simp⟩
    intro h hplain
    obtain ⟨hleft, hright, _⟩ := accepts_binary h
    apply isLowered_binary
    · apply ihl.1 hleft
      intro node hnode
      exact hplain node (by simp [Expr.nodes, hnode])
    · apply ihr.1 hright
      intro node hnode
      exact hplain node (by simp [Expr.nodes, hnode])
  | call callee args span ihc ih =>
    refine ⟨?_, by simp⟩
    intro h hplain
    have hcallee : Plain callee := by
      intro node hnode
      exact hplain node (by simp [Expr.nodes, hnode])
    have hargs : ∀ arg ∈ args, Plain arg := by
      intro arg harg node hnode
      apply hplain
      simp only [Expr.nodes, List.mem_cons, List.mem_append, mem_allNodes]
      exact Or.inr (Or.inr ⟨arg, harg, hnode⟩)
    apply isLowered_callForm (callForm_of_accepts h) (hplain _ (Expr.mem_nodes_self _))
    · intro haccepts
      exact ihc.1 haccepts hcallee
    · intro object field span' heq haccepts
      apply ihc.2 object field span' heq haccepts
      intro node hnode
      apply hcallee
      rw [heq, Expr.nodes]
      exact List.mem_cons_of_mem _ hnode
    · intro arg harg haccepts
      exact (ih arg harg).1 haccepts (hargs arg harg)
  | field object field span ih =>
    constructor
    · intro h hplain
      apply isLowered_field (fieldForm_of_accepts h)
      intro haccepts
      apply ih.1 haccepts
      intro node hnode
      exact hplain node (by simp [Expr.nodes, hnode])
    · intro object' field' span' heq haccepts hplain
      cases heq
      exact ih.1 haccepts hplain

theorem isLowered_stmt {stmt : Stmt} (h : IsLowered file stmt.expr) :
    ∃ code, lowerStmt file stmt = .ok code := by
  obtain ⟨code, hcode⟩ := h
  cases stmt with
  | «let» name e span =>
    have he : lowerExpr file e = .ok code := hcode
    refine ⟨code ++ emit name.span (.push (.symbol name.name)), ?_⟩
    rw [lowerStmt, he]
    rfl
  | require e span =>
    have he : lowerExpr file e = .ok code := hcode
    refine ⟨code ++ emit span .verify, ?_⟩
    rw [lowerStmt, he]
    rfl
  | «return» e span => exact ⟨code, hcode⟩

end

/-- Every analysed program without unary minus, and whose `multisig` keys are array literals of
a `u32` length, is lowered. -/
theorem lowerProgram_total (program : Program) (source file : String) (analysis : Analysis)
    (h : analyzeProgram program source file = .ok analysis)
    (hplain : ∀ contract ∈ program.contracts, ∀ spend ∈ contract.spends, ∀ stmt ∈ spend.body,
      Plain stmt.expr) :
    ∃ ir, lowerProgram analysis.program analysis.kipRequirements file = .ok ir := by
  obtain ⟨haccepted, hprogram, _⟩ := accepted_of_analyzeProgram h
  have hspend : ∀ contract ∈ program.contracts, ∀ spend ∈ contract.spends,
      ∃ ir, lowerSpend file spend = .ok ir := by
    intro contract hcontract spend hspend
    obtain ⟨code, hcode⟩ : ∃ code, joinAll (spend.body.map (lowerStmt file)) = .ok code := by
      rw [joinAll_isOk, List.forall_mem_map]
      intro stmt hstmt
      obtain ⟨scope, haccepts⟩ := haccepted.expr hcontract hspend hstmt
      apply isLowered_stmt
      exact isLowered_of_accepts _ haccepts (hplain contract hcontract spend hspend stmt hstmt)
    rw [lowerSpend, hcode]
    exact ⟨_, rfl⟩
  have hcontract : ∀ contract ∈ program.contracts, ∃ ir, lowerContract file contract = .ok ir := by
    intro contract hcontract
    obtain ⟨spends, hspends⟩ := mapM_isOk.mpr (hspend contract hcontract)
    rw [lowerContract, hspends]
    exact ⟨_, rfl⟩
  obtain ⟨contracts, hcontracts⟩ := mapM_isOk.mpr hcontract
  rw [hprogram, lowerProgram, hcontracts]
  exact ⟨_, rfl⟩

theorem plain_vaultBody : ∀ stmt ∈ vaultBody, Plain stmt.expr := by
  intro stmt hstmt node hnode
  simp only [vaultBody, List.mem_cons, List.not_mem_nil, or_false] at hstmt
  rcases hstmt with rfl | rfl | rfl <;>
  · simp only [Stmt.expr, Expr.nodes, allNodes, List.mem_cons, List.mem_append, List.not_mem_nil,
      or_false, List.append_nil] at hnode
    constructor
    · intro e span heq
      simp [heq] at hnode
    · intro id args span heq hid
      subst heq
      simp_all [nameAt]

theorem lowerProgram_total_vaultProgram :
    ∃ ir, lowerProgram vaultProgram [10] "vault.ks" = .ok ir := by
  apply lowerProgram_total vaultProgram "" "vault.ks" ⟨vaultProgram, [10], none⟩ rfl
  intro contract hcontract spend hspend stmt hstmt
  rw [vaultProgram, List.mem_singleton] at hcontract
  subst hcontract
  rw [vaultContract, List.mem_singleton] at hspend
  subst hspend
  exact plain_vaultBody stmt hstmt

end KaspaScript
