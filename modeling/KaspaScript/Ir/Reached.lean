import KaspaScript.Ir.Calls
import KaspaScript.Ir.Total

namespace KaspaScript

open Checker
open Library (joinAll bind_eq_ok pure_eq_ok joinAll_isOk)

section

variable {cx : Checker} {scope : Scope} {file : String} {check : CheckKind}

/-- Every call among the nodes is accepted, or is the output that a continuation names. -/
def CallsSeen (cx : Checker) (scope : Scope) (nodes : List Expr) : Prop :=
  ∀ callee args span, .call callee args span ∈ nodes →
    cx.Accepts scope (.call callee args span) ∨
      (outputCallIndex (.call callee args span)).isSome = true

theorem callsSeen_all {es : List Expr} (h : ∀ e ∈ es, CallsSeen cx scope e.nodes) :
    CallsSeen cx scope (allNodes es) := by
  intro callee args span hnode
  obtain ⟨e, he, hnode⟩ := mem_allNodes.mp hnode
  exact h e he callee args span hnode

theorem CallsSeen.append {nodes nodes' : List Expr} (h : CallsSeen cx scope nodes)
    (h' : CallsSeen cx scope nodes') : CallsSeen cx scope (nodes ++ nodes') := by
  intro callee args span hnode
  rcases List.mem_append.mp hnode with hnode | hnode
  · exact h callee args span hnode
  · exact h' callee args span hnode

theorem CallsSeen.call {callee : Expr} {args : List Expr} {span : Span} {nodes : List Expr}
    (hcall : cx.Accepts scope (.call callee args span) ∨
      (outputCallIndex (.call callee args span)).isSome = true) (h : CallsSeen cx scope nodes) :
    CallsSeen cx scope (.call callee args span :: nodes) := by
  intro callee' args' span' hnode
  rcases List.mem_cons.mp hnode with heq | hnode
  · cases heq
    exact hcall
  · exact h callee' args' span' hnode

/-- A node that is no call adds nothing to look at. -/
theorem CallsSeen.cons {node : Expr} {nodes : List Expr}
    (hnode : ∀ callee args span, node ≠ .call callee args span) (h : CallsSeen cx scope nodes) :
    CallsSeen cx scope (node :: nodes) := by
  intro callee args span hmem
  rcases List.mem_cons.mp hmem with heq | hmem
  · exact absurd heq.symm (hnode _ _ _)
  · exact h callee args span hmem

theorem callsSeen_nil : CallsSeen cx scope [] := by
  intro callee args span hnode
  cases hnode

theorem callsSeen_outputCall {output : Expr} {index : Nat}
    (h : outputCallIndex output = some index) : CallsSeen cx scope output.nodes := by
  have hsome : (outputCallIndex output).isSome = true := by
    rw [h]
    rfl
  unfold outputCallIndex at h
  split at h
  · rw [Expr.nodes, Expr.nodes, allNodes, Expr.nodes, allNodes]
    exact CallsSeen.call (Or.inr hsome)
      ((callsSeen_nil.cons (by simp)).append ((callsSeen_nil.append callsSeen_nil).cons (by simp)))
  · cases h

theorem callsSeen_callForm {callee : Expr} {args : List Expr} (hform : CallForm cx scope callee args)
    (ihc : Visited cx scope callee → CallsSeen cx scope callee.nodes)
    (ihobject : ∀ object field span, callee = .field object field span →
      Visited cx scope object → CallsSeen cx scope object.nodes)
    (ih : ∀ arg ∈ args, Visited cx scope arg → CallsSeen cx scope arg.nodes) :
    CallsSeen cx scope (callee.nodes ++ allNodes args) := by
  have hargs (h : ∀ arg ∈ args, Visited cx scope arg) : CallsSeen cx scope (allNodes args) :=
    callsSeen_all fun arg harg => ih arg harg (h arg harg)
  have hident (id : Ident) : CallsSeen cx scope (Expr.ident id).nodes := by
    rw [Expr.nodes]
    exact callsSeen_nil.cons (by simp)
  have hinteger (value : Nat) (span : Span) : CallsSeen cx scope (Expr.integer value span).nodes := by
    rw [Expr.nodes]
    exact callsSeen_nil.cons (by simp)
  cases hform with
  | verify _ hobject _ hkey _ =>
    apply CallsSeen.append
    · rw [Expr.nodes]
      exact (ihobject _ _ _ rfl (Or.inl hobject)).cons (by simp)
    · exact hargs (List.forall_mem_singleton.mpr (Or.inl hkey))
  | index _ _ => exact (hident _).append (callsSeen_all (List.forall_mem_singleton.mpr (hinteger _ _)))
  | continuation _ _ houtput =>
    apply (hident _).append
    rw [allNodes, Expr.nodes, allNodes, allNodes]
    exact ((callsSeen_outputCall houtput).append callsSeen_nil).cons (by simp)
  | proof _ hproof _ => exact (hident _).append (hargs (List.forall_mem_singleton.mpr (Or.inl hproof)))
  | hash _ harg => exact (hident _).append (hargs (List.forall_mem_singleton.mpr (Or.inl harg)))
  | multisig _ _ hkeys hsignatures =>
    apply (hident _).append
    rw [allNodes]
    apply (hinteger _ _).append
    apply callsSeen_all
    intro arg harg
    apply ih arg (List.mem_cons_of_mem _ harg)
    simp only [List.mem_cons, List.not_mem_nil, or_false] at harg
    rcases harg with rfl | rfl
    · exact Or.inl hkeys
    · exact Or.inl hsignatures
  | other _ hcallee harguments =>
    exact (ihc (Or.inl hcallee)).append (hargs fun arg harg => Or.inl (harguments arg harg))

theorem callsSeen (e : Expr) : Visited cx scope e → CallsSeen cx scope e.nodes := by
  -- a call's receiver lies two levels down, so the statement carries the object of a field too
  suffices hboth : (Visited cx scope e → CallsSeen cx scope e.nodes) ∧
      ∀ object field span, e = .field object field span →
        Visited cx scope object → CallsSeen cx scope object.nodes from hboth.1
  induction e using Expr.induct with
  | array elements span ih =>
    refine ⟨?_, by simp⟩
    intro h
    rw [Expr.nodes]
    have haccepts := accepts_array.mp (h.accepts (by simp))
    exact (callsSeen_all fun e he => (ih e he).1 (Or.inl (haccepts e he))).cons (by simp)
  | unary op e span ih =>
    refine ⟨?_, by simp⟩
    intro h
    rw [Expr.nodes]
    exact (ih.1 (Or.inl (accepts_unary (h.accepts (by simp))).1)).cons (by simp)
  | binary left op right span ihl ihr =>
    refine ⟨?_, by simp⟩
    intro h
    rw [Expr.nodes]
    have haccepts := accepts_binary (h.accepts (by simp))
    exact ((ihl.1 (Or.inl haccepts.1)).append (ihr.1 (Or.inl haccepts.2.1))).cons (by simp)
  | call callee args span ihc ih =>
    refine ⟨?_, by simp⟩
    intro h
    rw [Expr.nodes]
    exact CallsSeen.call (Or.inl (h.accepts (by simp)))
      (callsSeen_callForm h.call ihc.1 ihc.2 (fun arg harg => (ih arg harg).1))
  | field object field span ih =>
    constructor
    · intro h
      rw [Expr.nodes]
      exact (ih.1 h.object).cons (by simp)
    · intro object' field' span' heq h
      cases heq
      exact ih.1 h
  | _ =>
    refine ⟨?_, by simp⟩
    intro _
    rw [Expr.nodes]
    exact callsSeen_nil.cons (by simp)

/-- The call nodes of a check are all of them accepted. -/
def CallsAccepted (cx : Checker) (scope : Scope) (check : CheckKind) (nodes : List Expr) : Prop :=
  ∀ node ∈ nodes, check.isCall node = true → cx.Accepts scope node

theorem callsAccepted (e : Expr) (h : Visited cx scope e) : CallsAccepted cx scope check e.nodes := by
  intro node hnode hcheck
  unfold CheckKind.isCall at hcheck
  split at hcheck
  · rcases callsSeen e h _ _ _ hnode with haccepts | houtput
    · exact haccepts
    · simp [outputCallIndex] at houtput
  · rcases callsSeen e h _ _ _ hnode with haccepts | houtput
    · exact haccepts
    · unfold outputCallIndex at houtput
      split at houtput
      · rename_i heq
        cases heq
        split_ifs at houtput with hroot
        · cases check <;> simp [hroot.1, CheckKind.name] at hcheck
        · cases houtput
      · cases houtput
  · cases hcheck

/-- The call nodes of a check are lowered, unless they stand in a part that is passed over. -/
def CallsReached (file : String) (check : CheckKind) (nodes dropped : List Expr) : Prop :=
  ∀ node ∈ nodes, check.isCall node = true → node ∈ allNodes dropped ∨ IsLowered file node

theorem CallsReached.mono {nodes dropped dropped' : List Expr}
    (h : CallsReached file check nodes dropped) (hdropped : ∀ part ∈ dropped, part ∈ dropped') :
    CallsReached file check nodes dropped' := by
  intro node hnode hcall
  apply (h node hnode hcall).imp_left
  intro hmem
  obtain ⟨part, hpart, hmem⟩ := mem_allNodes.mp hmem
  exact mem_allNodes.mpr ⟨part, hdropped part hpart, hmem⟩

theorem CallsReached.append {nodes nodes' dropped : List Expr}
    (h : CallsReached file check nodes dropped) (h' : CallsReached file check nodes' dropped) :
    CallsReached file check (nodes ++ nodes') dropped := by
  intro node hnode
  rcases List.mem_append.mp hnode with hnode | hnode
  · exact h node hnode
  · exact h' node hnode

theorem CallsReached.cons {node : Expr} {nodes dropped : List Expr}
    (hnode : check.isCall node = true → IsLowered file node)
    (h : CallsReached file check nodes dropped) :
    CallsReached file check (node :: nodes) dropped := by
  intro other hother hcall
  rcases List.mem_cons.mp hother with rfl | hother
  · exact Or.inr (hnode hcall)
  · exact h other hother hcall

theorem callsReached_of_none {nodes dropped : List Expr} (h : nodes.countP check.isCall = 0) :
    CallsReached file check nodes dropped := by
  intro node hnode hcall
  exact absurd hcall (by simpa using List.countP_eq_zero.mp h node hnode)

/-- A part that is passed over holds all its nodes. -/
theorem callsReached_dropped {part : Expr} {dropped : List Expr} (h : part ∈ dropped) :
    CallsReached file check part.nodes dropped :=
  fun _ hnode _ => Or.inl (mem_allNodes.mpr ⟨part, h, hnode⟩)

theorem isLowered_of_mem {es : List Expr} {code : List Instruction}
    (h : joinAll (lowerEach file es) = .ok code) {e : Expr} (he : e ∈ es) : IsLowered file e :=
  joinAll_isOk.mp ⟨code, h⟩ _ (mem_lowerEach.mpr ⟨e, he, rfl⟩)

theorem mem_droppedEach {es : List Expr} {part : Expr} :
    part ∈ droppedEach es ↔ ∃ e ∈ es, part ∈ e.dropped := by
  induction es with
  | nil => simp [droppedEach]
  | cons e es ih => simp [droppedEach, ih]

/-- What the members of a list give for all its nodes. -/
theorem callsReached_all {es : List Expr}
    (ih : ∀ e ∈ es, CallsReached file check e.nodes e.dropped) :
    CallsReached file check (allNodes es) (droppedEach es) := by
  intro node hnode
  obtain ⟨e, he, hnode⟩ := mem_allNodes.mp hnode
  exact (ih e he).mono (fun part hpart => mem_droppedEach.mpr ⟨e, he, hpart⟩) node hnode

theorem isLowered_of_take {arg : Expr} {code : List Instruction}
    (h : joinAll ((lowerEach file [arg]).take 1) = .ok code) : IsLowered file arg := by
  rw [lowerEach_take] at h
  exact isLowered_of_mem h (by simp)

theorem isLowered_of_lowerFirst {arg : Expr} {span : Span} {kind : InstructionKind}
    {code : List Instruction} (h : lowerFirst (lowerEach file [arg]) span kind = .ok code) :
    IsLowered file arg := by
  obtain ⟨inner, hinner, _⟩ := bind_eq_ok.mp h
  exact isLowered_of_take hinner

/-- The operands of a lowered `multisig` are lowered. -/
theorem isLowered_of_lowerMultisig {required : Nat} {keys signatures : Expr} {span span' : Span}
    {code : List Instruction}
    (h : lowerMultisig file [.integer required span', keys, signatures] span
      (lowerEach file [.integer required span', keys, signatures]) = .ok code) :
    IsLowered file keys ∧ IsLowered file signatures := by
  simp only [lowerMultisig, List.head?_cons] at h
  split_ifs at h
  · obtain ⟨s, hs, h⟩ := bind_eq_ok.mp h
    obtain ⟨k, hk, _⟩ := bind_eq_ok.mp h
    rw [lowerEach_getElem?] at hs hk
    exact ⟨isLowered_of_mem hk (by simp), isLowered_of_mem hs (by simp)⟩
  · cases h

theorem isLowered_of_unrecognized {callee : Expr} {args : List Expr} {code : List Instruction}
    (h : (do let c ← lowerExpr file callee
             let rest ← joinAll (lowerEach file args)
             pure (c ++ rest)) = .ok code) :
    IsLowered file callee ∧ ∀ arg ∈ args, IsLowered file arg := by
  obtain ⟨c, hc, h⟩ := bind_eq_ok.mp h
  obtain ⟨rest, hrest, _⟩ := bind_eq_ok.mp h
  exact ⟨⟨c, hc⟩, fun arg harg => isLowered_of_mem hrest harg⟩

theorem isLowered_of_other {callee : Expr} {args : List Expr} {span : Span}
    {code : List Instruction} (hcallee : isBuiltinCallee callee = false)
    (h : lowerExpr file (.call callee args span) = .ok code) :
    IsLowered file callee ∧ ∀ arg ∈ args, IsLowered file arg := by
  cases callee with
  | field object field span' =>
    have hfield : field.name ≠ "verify" := by simpa [isBuiltinCallee] using hcallee
    rw [lowerExpr] at h
    simp only [lowerCall, if_neg hfield] at h
    exact isLowered_of_unrecognized h
  | ident id =>
    have hname : id.name ∉ builtinCallNames := by simpa [isBuiltinCallee] using hcallee
    simp only [builtinCallNames, List.mem_cons, List.not_mem_nil, or_false, not_or] at hname
    rw [lowerExpr] at h
    · simp only [lowerCall] at h
      split at h <;> first | exact isLowered_of_unrecognized h | tauto
    · simp
  | _ =>
    rw [lowerExpr] at h
    · exact isLowered_of_unrecognized h
    · simp

/-- The checked arguments of a lowered call are lowered. -/
theorem callsReached_callForm {callee : Expr} {args : List Expr} {span : Span}
    {code : List Instruction} (hform : CallForm cx scope callee args)
    (h : lowerExpr file (.call callee args span) = .ok code)
    (ihc : Visited cx scope callee → IsLowered file callee →
      CallsReached file check callee.nodes callee.dropped)
    (ihobject : ∀ object field span, callee = .field object field span →
      Visited cx scope object → IsLowered file object →
        CallsReached file check object.nodes object.dropped)
    (ih : ∀ arg ∈ args, Visited cx scope arg → IsLowered file arg →
      CallsReached file check arg.nodes arg.dropped) :
    CallsReached file check (callee.nodes ++ allNodes args)
      (Expr.call callee args span).dropped := by
  have hident (id : Ident) (dropped : List Expr) :
      CallsReached file check (Expr.ident id).nodes dropped :=
    callsReached_of_none (by simp [Expr.nodes, CheckKind.isCall])
  cases hform with
  | @verify object field span' key hfield hobject _ hkey _ =>
    rw [lowerExpr] at h
    simp only [lowerCall, hfield, if_true, bind_eq_ok] at h
    obtain ⟨o, ho, k, hk, _⟩ := h
    rw [Expr.dropped, if_pos hfield, Expr.nodes, droppedEach_singleton]
    have hobject' := (ihobject object field span' rfl (Or.inl hobject) ⟨o, ho⟩).mono
      fun part hpart => List.mem_append_left key.dropped hpart
    have hkey' := (ih key (by simp) (Or.inl hkey) (isLowered_of_take hk)).mono
      fun part hpart => List.mem_append_right object.dropped hpart
    apply (hobject'.cons (by simp [CheckKind.isCall])).append
    simpa [allNodes] using hkey'
  | index _ _ =>
    exact (hident _ _).append
      (callsReached_of_none (by simp [allNodes, Expr.nodes, CheckKind.isCall]))
  | @continuation id label span' output index _ _ houtput =>
    apply (hident id _).append
    apply callsReached_of_none
    change check.callCount [.string label span', output] = 0
    rw [callCount_cons, callCount_outputCall houtput, callCount_string]
  | @proof id proof hid hproof _ =>
    rw [lowerExpr] at h
    · simp only [lowerCall, hid] at h
      have hvisited := ih proof (by simp) (Or.inl hproof) (isLowered_of_lowerFirst h)
      simpa [Expr.dropped, allNodes] using (hident id proof.dropped).append hvisited
    · simp
  | @hash id arg hid harg =>
    have hlowered : IsLowered file arg := by
      rw [lowerExpr] at h
      · rcases hid with hid | hid | hid <;> simp only [lowerCall, hid] at h <;>
          exact isLowered_of_lowerFirst h
      · simp
    have hvisited := ih arg (by simp) (Or.inl harg) hlowered
    simpa [Expr.dropped, allNodes] using (hident id arg.dropped).append hvisited
  | @multisig id required span' keys signatures hid _ hkeys hsignatures =>
    rw [lowerExpr] at h
    · simp only [lowerCall, hid] at h
      obtain ⟨hkeys', hsignatures'⟩ := isLowered_of_lowerMultisig h
      have hdropped : (Expr.call (.ident id) [.integer required span', keys, signatures] span).dropped
          = keys.dropped ++ signatures.dropped := by simp [Expr.dropped, droppedEach]
      have hk := (ih keys (by simp) (Or.inl hkeys) hkeys').mono
        fun part hpart => List.mem_append_left signatures.dropped hpart
      have hs := (ih signatures (by simp) (Or.inl hsignatures) hsignatures').mono
        fun part hpart => List.mem_append_right keys.dropped hpart
      rw [hdropped]
      apply (hident id _).append
      simpa [allNodes, Expr.nodes] using
        (hk.append hs).cons (fun hcall => absurd hcall (by simp [CheckKind.isCall]))
    · simp
  | other hbuiltin hcallee harguments =>
    rw [dropped_call hbuiltin]
    obtain ⟨hcallee', hargs'⟩ := isLowered_of_other hbuiltin h
    have hhead := (ihc (Or.inl hcallee) hcallee').mono
      fun part hpart => List.mem_append_left (droppedEach args) hpart
    have hrest := (callsReached_all fun arg harg =>
      ih arg harg (Or.inl (harguments arg harg)) (hargs' arg harg)).mono
        fun part hpart => List.mem_append_right callee.dropped hpart
    exact hhead.append hrest

theorem isLowered_of_lowerLock {right : Expr} {span : Span} {literal : Nat → InstructionKind}
    {fromStack : InstructionKind} {code : List Instruction}
    (h : lowerLock right span literal fromStack (lowerExpr file right) = .ok code) :
    IsLowered file right := by
  cases right with
  | integer value span' => exact ⟨_, by rw [lowerExpr]⟩
  | _ =>
    obtain ⟨c, hc, _⟩ := bind_eq_ok.mp h
    exact ⟨c, hc⟩

theorem isLowered_of_lowerField {object : Expr} {field : String} {span : Span}
    {code : List Instruction} (hfield : fieldBuiltin object field = none)
    (h : lowerField file object field span (lowerExpr file object) = .ok code) :
    IsLowered file object := by
  unfold lowerField at h
  unfold fieldBuiltin at hfield
  split at h
  · rename_i hobject
    rw [hobject] at hfield
    simp only [hfield] at h
    split_ifs at h <;> cases h
  · cases h
  · rename_i hobject
    rw [hobject] at hfield
    simp only at hfield
    split_ifs at hfield with hdepth hsequencing
    rw [if_neg hdepth, if_neg hsequencing] at h
    obtain ⟨c, hc, _⟩ := bind_eq_ok.mp h
    exact ⟨c, hc⟩

theorem callsReached (e : Expr) :
    Visited cx scope e → IsLowered file e → CallsReached file check e.nodes e.dropped := by
  -- a call's receiver lies two levels down, so the statement carries the object of a field too
  suffices hboth : (Visited cx scope e → IsLowered file e →
        CallsReached file check e.nodes e.dropped) ∧
      ∀ object field span, e = .field object field span → Visited cx scope object →
        IsLowered file object → CallsReached file check object.nodes object.dropped from hboth.1
  induction e using Expr.induct with
  | ident id =>
    exact ⟨fun _ _ => callsReached_of_none (by simp [Expr.nodes, CheckKind.isCall]), by simp⟩
  | integer value span =>
    exact ⟨fun _ _ => callsReached_of_none (by simp [Expr.nodes, CheckKind.isCall]), by simp⟩
  | string value span =>
    exact ⟨fun _ _ => callsReached_of_none (by simp [Expr.nodes, CheckKind.isCall]), by simp⟩
  | bool value span =>
    exact ⟨fun _ _ => callsReached_of_none (by simp [Expr.nodes, CheckKind.isCall]), by simp⟩
  | array elements span ih =>
    refine ⟨?_, by simp⟩
    intro hvisited hlowered
    obtain ⟨code, h⟩ := hlowered
    rw [lowerExpr] at h
    have haccepts := accepts_array.mp (hvisited.accepts (by simp))
    rw [Expr.nodes, Expr.dropped]
    exact (callsReached_all fun e he =>
      (ih e he).1 (Or.inl (haccepts e he)) (isLowered_of_mem h he)).cons
        (by simp [CheckKind.isCall])
  | unary op e span ih =>
    refine ⟨?_, by simp⟩
    intro hvisited hlowered
    obtain ⟨code, h⟩ := hlowered
    rw [lowerExpr] at h
    obtain ⟨c, hc, _⟩ := bind_eq_ok.mp h
    rw [Expr.nodes, Expr.dropped]
    exact (ih.1 (Or.inl (accepts_unary (hvisited.accepts (by simp))).1) ⟨c, hc⟩).cons
      (by simp [CheckKind.isCall])
  | binary left op right span ihl ihr =>
    refine ⟨?_, by simp⟩
    intro hvisited hlowered
    obtain ⟨code, h⟩ := hlowered
    have haccepts := accepts_binary (hvisited.accepts (by simp))
    rw [lowerExpr, lowerBinary, lowerSpecialBinary_eq] at h
    rw [Expr.nodes, Expr.dropped]
    apply CallsReached.cons (by simp [CheckKind.isCall])
    cases hclock : lockClock left op with
    | some clock =>
      rw [hclock] at h
      have hleft : CallsReached file check left.nodes ([left] ++ right.dropped) :=
        callsReached_dropped (by simp)
      apply hleft.append
      exact (ihr.1 (Or.inl haccepts.2.1) (isLowered_of_lowerLock h)).mono
        fun part hpart => List.mem_append_right [left] hpart
    | none =>
      rw [hclock] at h
      obtain ⟨l, hl, h⟩ := bind_eq_ok.mp h
      obtain ⟨r, hr, _⟩ := bind_eq_ok.mp h
      apply CallsReached.append
      · exact (ihl.1 (Or.inl haccepts.1) ⟨l, hl⟩).mono
          fun part hpart => List.mem_append_left right.dropped hpart
      · exact (ihr.1 (Or.inl haccepts.2.1) ⟨r, hr⟩).mono
          fun part hpart => List.mem_append_right left.dropped hpart
  | call callee args span ihc ih =>
    refine ⟨?_, by simp⟩
    intro hvisited hlowered
    obtain ⟨code, h⟩ := hlowered
    rw [Expr.nodes]
    exact (callsReached_callForm hvisited.call h ihc.1 ihc.2 (fun arg harg => (ih arg harg).1)).cons
      (fun _ => ⟨code, h⟩)
  | field object field span ih =>
    constructor
    · intro hvisited hlowered
      obtain ⟨code, h⟩ := hlowered
      rw [lowerExpr] at h
      rw [Expr.nodes, Expr.dropped]
      apply CallsReached.cons (by simp [CheckKind.isCall])
      split_ifs with hbuiltin
      · exact callsReached_dropped (by simp)
      · exact ih.1 hvisited.object (isLowered_of_lowerField (by simpa using hbuiltin) h)
    · intro object' field' span' heq hvisited hlowered
      cases heq
      exact ih.1 hvisited hlowered

/-- The expressions of a lowered spend are lowered. -/
theorem isLowered_of_lowerSpend {spend : Spend} {lowered : IrSpend}
    (h : lowerSpend file spend = .ok lowered) {stmt : Stmt} (hstmt : stmt ∈ spend.body) :
    IsLowered file stmt.expr := by
  obtain ⟨_, _, hbody⟩ := lowerSpend_eq_ok h
  obtain ⟨code, hcode⟩ := joinAll_isOk.mp ⟨_, hbody⟩ _ (List.mem_map_of_mem hstmt)
  cases stmt with
  | «let» name e span =>
    obtain ⟨inner, hinner, _⟩ := bind_eq_ok.mp hcode
    exact ⟨inner, hinner⟩
  | require e span =>
    obtain ⟨inner, hinner, _⟩ := bind_eq_ok.mp hcode
    exact ⟨inner, hinner⟩
  | «return» e span => exact ⟨code, hcode⟩

end

end KaspaScript
