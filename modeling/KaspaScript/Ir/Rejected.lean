import KaspaScript.Ir.Total
import KaspaScript.Library.FirstFailure

namespace KaspaScript

open Checker
open Library (Fails fails_ok fails_joinAll fails_mapM firstMark joinAll)

def callRejected (callee : Expr) (args : List Expr) (span : Span)
    (object calleeMark : Option Span) (marks : List (Option Span)) : Option Span :=
  match callee with
  | .field _ field _ =>
      if field.name = "verify" then object.or (firstMark (marks.take 1))
      else calleeMark.or (firstMark marks)
  | .ident id =>
      match id.name with
      | "input" | "output" | "continuation" => none
      | "multisig" =>
          match args.head? with
          | some (.integer required _) =>
              if required ≤ u32Max then
                (firstMark marks[2]?.toList).or (firstMark marks[1]?.toList)
              else some span
          | _ => none
      | "zk_verify" | "sha256" | "blake2b" | "hash160" => firstMark (marks.take 1)
      | _ => calleeMark.or (firstMark marks)
  | _ => calleeMark.or (firstMark marks)

mutual

/-- Span of the first negation, or `multisig` threshold over `u32`, of a checked expression, in
the order in which its parts are lowered; a part that is not lowered does not count. -/
def Expr.rejected : Expr → Option Span
  | .ident _ | .integer _ _ | .string _ _ | .bool _ _ => none
  | .array elements _ => firstMark (rejectedEach elements)
  | .unary op e span => e.rejected.or (if op = .negate then some span else none)
  | .binary left op right _ =>
      if op = .greaterEqual ∧ (isPath left ["block", "height"] ∨ isPath left ["block", "time"])
      then right.rejected
      else left.rejected.or right.rejected
  | .call callee args span =>
      callRejected callee args span
        (match callee with
          | .field object _ _ => object.rejected
          | _ => none)
        callee.rejected (rejectedEach args)
  | .field object field _ =>
      if (indexedObject object).isSome ∨ (isPath object ["covenant_id"] ∧ field.name = "depth") ∨
          isPath object ["sequencing"] then none
      else object.rejected

def rejectedEach : List Expr → List (Option Span)
  | [] => []
  | e :: rest => e.rejected :: rejectedEach rest

end

/-- The error that lowering reports for the span. -/
def RejectedAt (file : String) (span : Span) (error : IrError) : Prop :=
  ∃ message, error = .unsupported file 1 (span.start + 1) message

abbrev FailsAt {α : Type} (file : String) (x : Except IrError α) (mark : Option Span) : Prop :=
  Fails (RejectedAt file) x mark

section

variable {cx : Checker} {scope : Scope} {file : String}

theorem failsAt_unsupported (span : Span) (message : String) :
    FailsAt file (unsupported file span message) (some span) :=
  ⟨_, rfl, message, rfl⟩

theorem failsAt_each {es : List Expr} (h : ∀ e ∈ es, FailsAt file (lowerExpr file e) e.rejected) :
    List.Forall₂ (FailsAt file) (lowerEach file es) (rejectedEach es) := by
  induction es with
  | nil => exact .nil
  | cons e es ih =>
    obtain ⟨he, hes⟩ := List.forall_mem_cons.mp h
    exact .cons he (ih hes)

theorem failsAt_lock {right : Expr} {span : Span} {literal : Nat → InstructionKind}
    {fromStack : InstructionKind} (h : FailsAt file (lowerExpr file right) right.rejected) :
    FailsAt file (lowerLock right span literal fromStack (lowerExpr file right))
      right.rejected := by
  cases right with
  | integer value span' => exact fails_ok _
  | _ => exact h.then fun code => fails_ok _

theorem failsAt_binary {left right : Expr} {op : BinaryOp} {span : Span}
    (hleft : FailsAt file (lowerExpr file left) left.rejected)
    (hright : FailsAt file (lowerExpr file right) right.rejected) :
    FailsAt file (lowerExpr file (.binary left op right span))
      (Expr.binary left op right span).rejected := by
  rw [lowerExpr, lowerBinary, lowerSpecialBinary, Expr.rejected]
  by_cases hheight : op = .greaterEqual ∧ isPath left ["block", "height"]
  · rw [if_pos hheight, if_pos ⟨hheight.1, .inl hheight.2⟩]
    exact failsAt_lock hright
  · rw [if_neg hheight]
    by_cases htime : op = .greaterEqual ∧ isPath left ["block", "time"]
    · rw [if_pos htime, if_pos ⟨htime.1, .inr htime.2⟩]
      exact failsAt_lock hright
    · rw [if_neg htime, if_neg (by tauto)]
      apply hleft.bind
      intro l
      exact hright.then fun r => fails_ok _

theorem failsAt_unrecognized {callee : Expr} {args : List Expr}
    (hcallee : FailsAt file (lowerExpr file callee) callee.rejected)
    (hargs : ∀ arg ∈ args, FailsAt file (lowerExpr file arg) arg.rejected) :
    FailsAt file (do
      let code ← lowerExpr file callee
      let rest ← joinAll (lowerEach file args)
      pure (code ++ rest) : Lowered) (callee.rejected.or (firstMark (rejectedEach args))) := by
  apply hcallee.bind
  intro code
  exact (fails_joinAll (failsAt_each hargs)).then fun rest => fails_ok _

theorem failsAt_first {arg : Expr} {span : Span} {kind : InstructionKind}
    (h : FailsAt file (lowerExpr file arg) arg.rejected) :
    FailsAt file (lowerFirst (lowerEach file [arg]) span kind)
      (firstMark ((rejectedEach [arg]).take 1)) := by
  have heach : List.Forall₂ (FailsAt file) (lowerEach file [arg]) (rejectedEach [arg]) :=
    failsAt_each (List.forall_mem_singleton.mpr h)
  exact (fails_joinAll heach).then fun code => fails_ok _

theorem failsAt_verify {object key : Expr} {field : Ident} {span span' : Span}
    (hfield : field.name = "verify")
    (hobject : FailsAt file (lowerExpr file object) object.rejected)
    (hkey : FailsAt file (lowerExpr file key) key.rejected) :
    FailsAt file (lowerExpr file (.call (.field object field span') [key] span))
      (Expr.call (.field object field span') [key] span).rejected := by
  have heach : List.Forall₂ (FailsAt file) (lowerEach file [key]) (rejectedEach [key]) :=
    failsAt_each (List.forall_mem_singleton.mpr hkey)
  rw [lowerExpr, Expr.rejected]
  simp only [lowerCall, callRejected, hfield, if_true]
  apply hobject.bind
  intro o
  exact (fails_joinAll heach).then fun k => fails_ok _

/-- The threshold is looked at first, then the signatures are lowered, then the keys. -/
theorem failsAt_multisig {required : Nat} {keys signatures : Expr} {id : Ident}
    {span span' : Span} (hid : id.name = "multisig")
    (hkeys : FailsAt file (lowerExpr file keys) keys.rejected)
    (hsignatures : FailsAt file (lowerExpr file signatures) signatures.rejected) :
    FailsAt file (lowerExpr file
        (.call (.ident id) [.integer required span', keys, signatures] span))
      (Expr.call (.ident id) [.integer required span', keys, signatures] span).rejected := by
  rw [lowerExpr, Expr.rejected]
  · simp only [lowerCall, callRejected, hid, lowerMultisig, List.head?_cons]
    by_cases hrequired : required ≤ u32Max
    · rw [if_pos hrequired, if_pos hrequired]
      have hfirst : FailsAt file (joinAll [lowerExpr file signatures])
          (firstMark [signatures.rejected]) := fails_joinAll (.cons hsignatures .nil)
      have hsecond : FailsAt file (joinAll [lowerExpr file keys]) (firstMark [keys.rejected]) :=
        fails_joinAll (.cons hkeys .nil)
      apply hfirst.bind
      intro s
      exact hsecond.then fun k => fails_ok _
    · rw [if_neg hrequired, if_neg hrequired]
      exact failsAt_unsupported span _
  · simp
  · simp

/-- Every way a checked call can look fails where its parts say, or at its own threshold. -/
theorem failsAt_callForm {callee : Expr} {args : List Expr} {span : Span}
    (hform : CallForm cx scope callee args)
    (ihc : cx.Accepts scope callee → FailsAt file (lowerExpr file callee) callee.rejected)
    (ihobject : ∀ object field span', callee = .field object field span' →
      cx.Accepts scope object → FailsAt file (lowerExpr file object) object.rejected)
    (ih : ∀ arg ∈ args, cx.Accepts scope arg → FailsAt file (lowerExpr file arg) arg.rejected) :
    FailsAt file (lowerExpr file (.call callee args span))
      (Expr.call callee args span).rejected := by
  cases hform with
  | verify hfield hobject _ hkey _ =>
    exact failsAt_verify hfield (ihobject _ _ _ rfl hobject) (ih _ (by simp) hkey)
  | index hid hvalue =>
    rw [lowerExpr, Expr.rejected]
    · rcases hid with hid | hid <;>
      · simp only [lowerCall, callRejected, hid, lowerIndexCall, if_pos hvalue]
        exact fails_ok _
    · simp
    · simp
  | @continuation id label span' output index hid _ houtput =>
    have hcode : ∃ code, lowerContinuation file [.string label span', output] span = .ok code :=
      isLowered_continuation houtput
    rw [lowerExpr, Expr.rejected]
    · simp only [lowerCall, callRejected, hid]
      exact hcode
    · simp
    · simp
  | proof hid hproof _ =>
    rw [lowerExpr, Expr.rejected]
    · simp only [lowerCall, callRejected, hid]
      exact failsAt_first (ih _ (by simp) hproof)
    · simp
    · simp
  | hash hid harg =>
    rw [lowerExpr, Expr.rejected]
    · rcases hid with hid | hid | hid <;>
      · simp only [lowerCall, callRejected, hid]
        exact failsAt_first (ih _ (by simp) harg)
    · simp
    · simp
  | multisig hid _ hkeys hsignatures =>
    exact failsAt_multisig hid (ih _ (by simp) hkeys) (ih _ (by simp) hsignatures)
  | other hcallee haccepts hargs =>
    have hunrecognized := failsAt_unrecognized (ihc haccepts)
      (fun arg harg => ih arg harg (hargs arg harg))
    cases callee with
    | field object field span' =>
      rw [lowerExpr, Expr.rejected]
      have hfield : field.name ≠ "verify" := by simpa [isBuiltinCallee] using hcallee
      simp only [lowerCall, callRejected, if_neg hfield]
      exact hunrecognized
    | ident id =>
      rw [lowerExpr, Expr.rejected]
      · simp only [lowerCall, callRejected]
        split <;> first | exact hunrecognized | simp_all [isBuiltinCallee, builtinCallNames]
      · simp
      · simp
    | _ =>
      rw [lowerExpr, Expr.rejected]
      · exact hunrecognized
      · simp
      · simp

theorem failsAt_field {object : Expr} {field : Ident} {span : Span}
    (hform : FieldForm cx scope field object)
    (ih : cx.Accepts scope object → FailsAt file (lowerExpr file object) object.rejected) :
    FailsAt file (lowerExpr file (.field object field span))
      (Expr.field object field span).rejected := by
  rw [lowerExpr, Expr.rejected]
  have hpushed (hobject : indexedObject object = none)
      (hlower : FailsAt file (lowerExpr file object) object.rejected) :
      FailsAt file (lowerField file object field.name span (lowerExpr file object))
        (if (indexedObject object).isSome ∨
            (isPath object ["covenant_id"] ∧ field.name = "depth") ∨
            isPath object ["sequencing"] then none
          else object.rejected) := by
    simp only [lowerField, hobject, Option.isSome_none, Bool.false_eq_true, false_or]
    by_cases hdepth : isPath object ["covenant_id"] ∧ field.name = "depth"
    · rw [if_pos hdepth, if_pos (.inl hdepth)]
      exact fails_ok _
    · by_cases hsequencing : isPath object ["sequencing"]
      · rw [if_neg hdepth, if_pos hsequencing, if_pos (.inr hsequencing)]
        exact fails_ok _
      · rw [if_neg hdepth, if_neg hsequencing, if_neg (by tauto)]
        exact hlower.then fun code => fails_ok _
  have hrooted (root : Ident) :
      FailsAt file (lowerExpr file (.ident root)) (Expr.ident root).rejected := by
    rw [lowerExpr, Expr.rejected]
    split <;> exact fails_ok _
  cases hform with
  | clock _ _ => exact hpushed rfl (hrooted _)
  | depth _ _ => exact hpushed rfl (hrooted _)
  | sequencing _ => exact hpushed rfl (hrooted _)
  | access _ haccepts hfield =>
    cases hobject : indexedObject object with
    | none =>
      have hmarked := hpushed hobject (ih haccepts)
      rwa [hobject] at hmarked
    | some indexed =>
      obtain ⟨root, args⟩ := indexed
      obtain ⟨value, span', rfl, hvalue, hroot, hty⟩ := accepts_indexedObject hobject haccepts
      obtain ⟨kind, hkind⟩ := indexedKind_isSome value hroot (hfield hty)
      rw [if_pos (.inl rfl)]
      simp only [lowerField, hobject, if_pos hvalue, hkind]
      exact fails_ok _

/-- What inference lets pass is lowered, or fails at its first rejected part. -/
theorem failsAt_of_accepts (e : Expr) :
    cx.Accepts scope e → FailsAt file (lowerExpr file e) e.rejected := by
  -- a call's receiver lies two levels down, so the statement carries the object of a field too
  suffices hboth : (cx.Accepts scope e → FailsAt file (lowerExpr file e) e.rejected) ∧
      ∀ object field span, e = .field object field span →
        cx.Accepts scope object → FailsAt file (lowerExpr file object) object.rejected from
    hboth.1
  induction e using Expr.induct with
  | ident id =>
    refine ⟨?_, by simp⟩
    intro _
    rw [lowerExpr, Expr.rejected]
    split <;> exact fails_ok _
  | integer value span => exact ⟨fun _ => fails_ok _, by simp⟩
  | string value span => exact ⟨fun _ => fails_ok _, by simp⟩
  | bool value span => exact ⟨fun _ => fails_ok _, by simp⟩
  | array elements span ih =>
    refine ⟨?_, by simp⟩
    intro h
    rw [lowerExpr, Expr.rejected]
    apply fails_joinAll
    apply failsAt_each
    intro element hmem
    exact (ih element hmem).1 (accepts_array.mp h element hmem)
  | unary op e span ih =>
    refine ⟨?_, by simp⟩
    intro h
    have he := ih.1 (accepts_unary h).1
    rw [lowerExpr, Expr.rejected]
    cases op with
    | not => exact he.bind fun code => fails_ok _
    | negate => exact he.bind fun code => failsAt_unsupported span _
  | binary left op right span ihl ihr =>
    refine ⟨?_, by simp⟩
    intro h
    obtain ⟨hleft, hright, _⟩ := accepts_binary h
    exact failsAt_binary (ihl.1 hleft) (ihr.1 hright)
  | call callee args span ihc ih =>
    refine ⟨?_, by simp⟩
    intro h
    exact failsAt_callForm (callForm_of_accepts h) ihc.1 ihc.2 fun arg harg => (ih arg harg).1
  | field object field span ih =>
    constructor
    · intro h
      exact failsAt_field (fieldForm_of_accepts h) ih.1
    · intro object' field' span' heq haccepts
      cases heq
      exact ih.1 haccepts

theorem failsAt_stmt {stmt : Stmt} (h : cx.Accepts scope stmt.expr) :
    FailsAt file (lowerStmt file stmt) stmt.expr.rejected := by
  have he : FailsAt file (lowerExpr file stmt.expr) stmt.expr.rejected :=
    failsAt_of_accepts stmt.expr h
  cases stmt with
  | «let» name e span => exact he.then fun code => fails_ok _
  | require e span => exact he.then fun code => fails_ok _
  | «return» e span => exact he

end

def Spend.rejected (spend : Spend) : Option Span :=
  firstMark (spend.body.map fun stmt => stmt.expr.rejected)

def Contract.rejected (contract : Contract) : Option Span :=
  firstMark (contract.spends.map Spend.rejected)

/-- Span of the first part of a checked program that lowering rejects. -/
def Program.rejected (program : Program) : Option Span :=
  firstMark (program.contracts.map Contract.rejected)

/-- An analysed program is lowered, or fails at its first rejected part. -/
theorem failsAt_lowerProgram {program : Program} {source file : String} {analysis : Analysis}
    (h : analyzeProgram program source file = .ok analysis) :
    FailsAt file (lowerProgram analysis.program analysis.kipRequirements file)
      program.rejected := by
  obtain ⟨haccepted, hprogram, _⟩ := accepted_of_analyzeProgram h
  rw [hprogram, lowerProgram]
  apply Fails.then _ fun contracts => fails_ok _
  apply fails_mapM
  intro contract hcontract
  apply Fails.then _ fun spends => fails_ok _
  apply fails_mapM
  intro spend hspend
  apply Fails.then _ fun code => fails_ok _
  apply fails_joinAll
  rw [List.forall₂_map_left_iff, List.forall₂_map_right_iff, List.forall₂_same]
  intro stmt hstmt
  obtain ⟨scope, haccepts⟩ := haccepted.expr hcontract hspend hstmt
  exact failsAt_stmt haccepts

end KaspaScript
