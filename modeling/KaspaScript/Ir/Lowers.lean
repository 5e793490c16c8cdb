import KaspaScript.Ir.Gen
import KaspaScript.Semantic.Accepted

namespace KaspaScript

open Library (joinAll bind_eq_ok pure_eq_ok joinAll_cons)
open Checker (outputCallIndex)

/-- The clock of a lock comparison. -/
inductive LockClock where
  | height | time
  deriving DecidableEq, Repr

namespace LockClock

def path : LockClock → List String
  | .height => ["block", "height"]
  | .time => ["block", "time"]

def literal : LockClock → Nat → InstructionKind
  | .height => .checkLockHeight
  | .time => .checkLockTime

def fromStack : LockClock → InstructionKind
  | .height => .checkLockHeightFromStack
  | .time => .checkLockTimeFromStack

end LockClock

/-- The clock that a comparison's left side and operator are special-cased for. -/
def lockClock (left : Expr) (op : BinaryOp) : Option LockClock :=
  if op = .greaterEqual ∧ isPath left LockClock.height.path then some .height
  else if op = .greaterEqual ∧ isPath left LockClock.time.path then some .time
  else none

theorem lowerSpecialBinary_eq (left : Expr) (op : BinaryOp) (right : Expr) (span : Span)
    (loweredRight : Lowered) :
    lowerSpecialBinary left op right span loweredRight =
      (lockClock left op).map fun clock =>
        lowerLock right span clock.literal clock.fromStack loweredRight := by
  unfold lowerSpecialBinary lockClock
  rw [apply_ite (Option.map _), apply_ite (Option.map _)]
  rfl

def isIntegerLiteral : Expr → Bool
  | .integer _ _ => true
  | _ => false

/-- The builtins that lower their first argument and append one instruction. -/
def unaryBuiltin : String → Option InstructionKind
  | "zk_verify" => some .zkVerifyGroth16
  | "sha256" => some .sha256
  | "blake2b" => some .blake2b
  | "hash160" => some .hash160
  | _ => none

/-- The special paths of a field access. -/
def fieldBuiltin (object : Expr) (field : String) : Option InstructionKind :=
  match indexedObject object with
  | some (root, .integer index _ :: _) => indexedKind root field index
  | some (_, _) => none
  | none =>
      if isPath object ["covenant_id"] ∧ field = "depth" then some .covenantDepth
      else if isPath object ["sequencing"] then some .sequencingCommitment
      else none

/-- Successful lowering, one rule for each path through the code generator. The instructions of
a list of expressions follow one another. -/
inductive Lowers : List Expr → List InstructionKind → Prop
  | nil : Lowers [] []
  | cons {e es code rest} : Lowers [e] code → Lowers es rest → Lowers (e :: es) (code ++ rest)
  | inputCount {id : Ident} : id.name = "input_count" → Lowers [.ident id] [.inputCount]
  | outputCount {id : Ident} : id.name = "output_count" → Lowers [.ident id] [.outputCount]
  | symbol {id : Ident} : id.name ≠ "input_count" → id.name ≠ "output_count" →
      Lowers [.ident id] [.push (.symbol id.name)]
  | integer {value span} : Lowers [.integer value span] [.push (.integer value)]
  | string {value span} : Lowers [.string value span] [.push (.string value)]
  | bool {value span} : Lowers [.bool value span] [.push (.bool value)]
  | array {elements span code} : Lowers elements code → Lowers [.array elements span] code
  | not {e span code} : Lowers [e] code → Lowers [.unary .not e span] (code ++ [.not])
  | lockLiteral {left value span span' clock} : lockClock left .greaterEqual = some clock →
      Lowers [.binary left .greaterEqual (.integer value span') span] [clock.literal value]
  | lockStack {left right span clock code} : lockClock left .greaterEqual = some clock →
      isIntegerLiteral right = false → Lowers [right] code →
      Lowers [.binary left .greaterEqual right span] (code ++ [clock.fromStack])
  | binary {left op right span cl cr} : lockClock left op = none →
      Lowers [left] cl → Lowers [right] cr →
      Lowers [.binary left op right span] (cl ++ cr ++ [binaryKind op])
  | verify {object field args span span' co ck} : field.name = "verify" →
      Lowers [object] co → Lowers (args.take 1) ck →
      Lowers [.call (.field object field span') args span] (co ++ ck ++ [.checkSig 0])
  | indexCall {id : Ident} {value span span' rest} : id.name = "input" ∨ id.name = "output" →
      value ≤ u32Max →
      Lowers [.call (.ident id) (.integer value span' :: rest) span] [.push (.integer value)]
  | continuation {id : Ident} {args span index} : id.name = "continuation" →
      args[1]?.bind outputCallIndex = some index →
      Lowers [.call (.ident id) args span]
        [.outputCount, .push (.integer index), .greaterThan]
  | multisig {id : Ident} {required rest span span' cs ck} : id.name = "multisig" →
      required ≤ u32Max → Lowers (rest[1]?.toList) cs → Lowers (rest[0]?.toList) ck →
      Lowers [.call (.ident id) (.integer required span' :: rest) span]
        (cs ++ [.push (.integer required)] ++ ck ++
          [.checkMultiSig required (multisigKeyCount (.integer required span' :: rest))])
  | unaryCall {id : Ident} {args span kind code} : unaryBuiltin id.name = some kind →
      Lowers (args.take 1) code → Lowers [.call (.ident id) args span] (code ++ [kind])
  | call {callee args span cc ca} : isBuiltinCallee callee = false →
      Lowers [callee] cc → Lowers args ca → Lowers [.call callee args span] (cc ++ ca)
  | builtinField {object field span kind} : fieldBuiltin object field.name = some kind →
      Lowers [.field object field span] [kind]
  | field {object field span code} : indexedObject object = none →
      fieldBuiltin object field.name = none → Lowers [object] code →
      Lowers [.field object field span] (code ++ [.push (.symbol field.name)])

@[simp] theorem kinds_emit (span : Span) (kind : InstructionKind) : kinds (emit span kind) = [kind] :=
  rfl

/-- What the induction hypotheses on the parts of a list give for the whole list. -/
theorem lowers_of_joinAll {file : String} {es : List Expr} {code : List Instruction}
    (ih : ∀ e ∈ es, ∀ c, lowerExpr file e = .ok c → Lowers [e] (kinds c))
    (h : joinAll (lowerEach file es) = .ok code) : Lowers es (kinds code) := by
  induction es generalizing code with
  | nil =>
    simp only [lowerEach, Library.joinAll_nil, Except.ok.injEq] at h
    subst h
    exact .nil
  | cons e es ihes =>
    simp only [lowerEach] at h
    obtain ⟨first, others, he, hes, rfl⟩ := joinAll_cons.mp h
    rw [kinds_append]
    apply Lowers.cons
    · exact ih e (by simp) first he
    · exact ihes (fun e' he' => ih e' (by simp [he'])) hes

theorem lowerEach_take (file : String) (n : Nat) (es : List Expr) :
    (lowerEach file es).take n = lowerEach file (es.take n) := by
  induction es generalizing n with
  | nil => simp [lowerEach]
  | cons e es ih => cases n with
    | zero => simp [lowerEach]
    | succ n => simp [lowerEach, ih]

theorem lowerEach_getElem? (file : String) (n : Nat) (es : List Expr) :
    (lowerEach file es)[n]?.toList = lowerEach file es[n]?.toList := by
  induction es generalizing n with
  | nil => simp [lowerEach]
  | cons e es ih => cases n with
    | zero => simp [lowerEach]
    | succ n => simp [lowerEach, ih]

section

variable {file : String}

theorem lowers_lock {left right : Expr} {span : Span} {clock : LockClock} {code : List Instruction}
    (hclock : lockClock left .greaterEqual = some clock)
    (ih : ∀ c, lowerExpr file right = .ok c → Lowers [right] (kinds c))
    (h : lowerLock right span clock.literal clock.fromStack (lowerExpr file right) = .ok code) :
    Lowers [.binary left .greaterEqual right span] (kinds code) := by
  have stack (hright : isIntegerLiteral right = false)
      (h : (do let c ← lowerExpr file right
               pure (c ++ emit span clock.fromStack)) = Except.ok code) :
      Lowers [.binary left .greaterEqual right span] (kinds code) := by
    obtain ⟨c, hc, hcode⟩ := bind_eq_ok.mp h
    rw [pure_eq_ok] at hcode
    subst hcode
    simpa using Lowers.lockStack hclock hright (ih c hc)
  cases right with
  | integer value span' =>
    simp only [lowerLock, Except.ok.injEq] at h
    subst h
    exact .lockLiteral hclock
  | _ => exact stack rfl h

theorem lowers_binary {left right : Expr} {op : BinaryOp} {span : Span} {code : List Instruction}
    (ihl : ∀ c, lowerExpr file left = .ok c → Lowers [left] (kinds c))
    (ihr : ∀ c, lowerExpr file right = .ok c → Lowers [right] (kinds c))
    (h : lowerBinary left op right span (lowerExpr file left) (lowerExpr file right) = .ok code) :
    Lowers [.binary left op right span] (kinds code) := by
  rw [lowerBinary, lowerSpecialBinary_eq] at h
  cases hclock : lockClock left op with
  | some clock =>
    have hop : op = .greaterEqual := by
      unfold lockClock at hclock
      split_ifs at hclock <;> simp_all
    subst hop
    rw [hclock] at h
    exact lowers_lock hclock ihr h
  | none =>
    rw [hclock] at h
    simp only [Option.map_none, bind_eq_ok, pure_eq_ok] at h
    obtain ⟨l, hl, r, hr, rfl⟩ := h
    simpa using Lowers.binary hclock (ihl l hl) (ihr r hr)

theorem lowers_first {es : List Expr} {code : List Instruction}
    (ih : ∀ e ∈ es, ∀ c, lowerExpr file e = .ok c → Lowers [e] (kinds c))
    (h : joinAll ((lowerEach file es).take 1) = .ok code) : Lowers (es.take 1) (kinds code) := by
  rw [lowerEach_take] at h
  exact lowers_of_joinAll (fun e he => ih e (List.mem_of_mem_take he)) h

theorem lowers_get {es : List Expr} {n : Nat} {code : List Instruction}
    (ih : ∀ e ∈ es, ∀ c, lowerExpr file e = .ok c → Lowers [e] (kinds c))
    (h : joinAll ((lowerEach file es)[n]?.toList) = .ok code) :
    Lowers (es[n]?.toList) (kinds code) := by
  rw [lowerEach_getElem?] at h
  apply lowers_of_joinAll _ h
  intro e he
  exact ih e (List.mem_of_getElem? (Option.mem_toList.mp he))

theorem lowers_multisig {id : Ident} {args : List Expr} {span : Span} {code : List Instruction}
    (hid : id.name = "multisig")
    (ih : ∀ e ∈ args, ∀ c, lowerExpr file e = .ok c → Lowers [e] (kinds c))
    (h : lowerMultisig file args span (lowerEach file args) = .ok code) :
    Lowers [.call (.ident id) args span] (kinds code) := by
  unfold lowerMultisig at h
  cases args with
  | nil => simp [unsupported] at h
  | cons first rest =>
    cases first with
    | integer required span' =>
      simp only [List.head?_cons] at h
      split_ifs at h with hk
      · obtain ⟨s, hs, h⟩ := bind_eq_ok.mp h
        obtain ⟨k, hkeys, h⟩ := bind_eq_ok.mp h
        rw [pure_eq_ok] at h
        subst h
        have hs' : Lowers (rest[1]?.toList) (kinds s) := by simpa using lowers_get ih hs
        have hk' : Lowers (rest[0]?.toList) (kinds k) := by simpa using lowers_get ih hkeys
        have hrule : Lowers [.call (.ident id) (.integer required span' :: rest) span] _ :=
          Lowers.multisig hid hk hs' hk'
        simpa using hrule
      · simp [unsupported] at h
    | _ => simp [unsupported] at h

theorem lowers_indexCall {id : Ident} {args : List Expr} {span : Span} {code : List Instruction}
    (hid : id.name = "input" ∨ id.name = "output")
    (h : lowerIndexCall file args span = .ok code) :
    Lowers [.call (.ident id) args span] (kinds code) := by
  unfold lowerIndexCall at h
  split at h
  · split_ifs at h with hvalue
    · simp only [Except.ok.injEq] at h
      subst h
      exact .indexCall hid hvalue
    · simp [unsupported] at h
  · simp [unsupported] at h

theorem lowers_unaryCall {id : Ident} {args : List Expr} {span : Span} {kind : InstructionKind}
    {code : List Instruction} (hid : unaryBuiltin id.name = some kind)
    (ih : ∀ e ∈ args, ∀ c, lowerExpr file e = .ok c → Lowers [e] (kinds c))
    (h : lowerFirst (lowerEach file args) span kind = .ok code) :
    Lowers [.call (.ident id) args span] (kinds code) := by
  simp only [lowerFirst, bind_eq_ok, pure_eq_ok] at h
  obtain ⟨c, hc, rfl⟩ := h
  simpa using Lowers.unaryCall hid (lowers_first ih hc)

theorem lowers_unrecognized {callee : Expr} {args : List Expr} {span : Span}
    {code : List Instruction} (hcallee : isBuiltinCallee callee = false)
    (ihc : ∀ c, lowerExpr file callee = .ok c → Lowers [callee] (kinds c))
    (ih : ∀ e ∈ args, ∀ c, lowerExpr file e = .ok c → Lowers [e] (kinds c))
    (h : (do let c ← lowerExpr file callee
             let rest ← joinAll (lowerEach file args)
             pure (c ++ rest)) = .ok code) :
    Lowers [.call callee args span] (kinds code) := by
  simp only [bind_eq_ok, pure_eq_ok] at h
  obtain ⟨c, hc, rest, hrest, rfl⟩ := h
  simpa using Lowers.call hcallee (ihc c hc) (lowers_of_joinAll ih hrest)

theorem lowers_call {callee : Expr} {args : List Expr} {span : Span} {code : List Instruction}
    (ihc : ∀ c, lowerExpr file callee = .ok c → Lowers [callee] (kinds c))
    (ihobject : ∀ object field span', callee = .field object field span' →
      ∀ c, lowerExpr file object = .ok c → Lowers [object] (kinds c))
    (ih : ∀ e ∈ args, ∀ c, lowerExpr file e = .ok c → Lowers [e] (kinds c))
    (h : lowerExpr file (.call callee args span) = .ok code) :
    Lowers [.call callee args span] (kinds code) := by
  cases callee with
  | field object field span' =>
    rw [lowerExpr] at h
    simp only [lowerCall] at h
    split_ifs at h with hverify
    · simp only [bind_eq_ok, pure_eq_ok] at h
      obtain ⟨o, ho, k, hk, rfl⟩ := h
      simpa using Lowers.verify hverify (ihobject object field span' rfl o ho) (lowers_first ih hk)
    · exact lowers_unrecognized (by simpa [isBuiltinCallee] using hverify) ihc ih h
  | ident id =>
    rw [lowerExpr] at h
    · simp only [lowerCall] at h
      split at h
      · exact lowers_indexCall (Or.inl (by assumption)) h
      · exact lowers_indexCall (Or.inr (by assumption)) h
      · rename_i hid
        unfold lowerContinuation at h
        split at h
        · rename_i index hindex
          simp only [Except.ok.injEq] at h
          subst h
          exact .continuation hid hindex
        · simp [unsupported] at h
      · exact lowers_multisig (by assumption) ih h
      · exact lowers_unaryCall (by simp [unaryBuiltin, *]) ih h
      · exact lowers_unaryCall (by simp [unaryBuiltin, *]) ih h
      · exact lowers_unaryCall (by simp [unaryBuiltin, *]) ih h
      · exact lowers_unaryCall (by simp [unaryBuiltin, *]) ih h
      · exact lowers_unrecognized (by simpa [isBuiltinCallee, builtinCallNames] using by tauto) ihc ih h
    · simp
  | _ =>
    rw [lowerExpr] at h
    · exact lowers_unrecognized rfl ihc ih h
    · simp

theorem lowers_field {object : Expr} {field : Ident} {span : Span} {code : List Instruction}
    (ih : ∀ c, lowerExpr file object = .ok c → Lowers [object] (kinds c))
    (h : lowerField file object field.name span (lowerExpr file object) = .ok code) :
    Lowers [.field object field span] (kinds code) := by
  unfold lowerField at h
  split at h
  · rename_i root index span' rest hobject
    split_ifs at h with hindex
    · split at h
      · rename_i kind hkind
        simp only [Except.ok.injEq] at h
        subst h
        exact .builtinField (by simp [fieldBuiltin, hobject, hkind])
      · simp [unsupported] at h
    · simp [unsupported] at h
  · simp [unsupported] at h
  · rename_i hobject
    split_ifs at h with hdepth hsequencing
    · simp only [Except.ok.injEq] at h
      subst h
      exact .builtinField (by simp [fieldBuiltin, hobject, hdepth])
    · simp only [Except.ok.injEq] at h
      subst h
      exact .builtinField (by simp [fieldBuiltin, hobject, hdepth, hsequencing])
    · simp only [bind_eq_ok, pure_eq_ok] at h
      obtain ⟨c, hc, rfl⟩ := h
      have hnone : fieldBuiltin object field.name = none := by
        simp [fieldBuiltin, hobject, hdepth, hsequencing]
      have hrule : Lowers [.field object field span] _ := Lowers.field hobject hnone (ih c hc)
      simpa using hrule

theorem lowers_ident {id : Ident} {code : List Instruction}
    (h : lowerExpr file (.ident id) = .ok code) : Lowers [.ident id] (kinds code) := by
  rw [lowerExpr] at h
  split at h <;> (simp only [Except.ok.injEq] at h; subst h)
  · exact .inputCount (by assumption)
  · exact .outputCount (by assumption)
  · exact .symbol (by assumption) (by assumption)

/-- Every successful lowering follows one of the rules. -/
theorem lowers_of_lowerExpr (e : Expr) :
    ∀ code, lowerExpr file e = .ok code → Lowers [e] (kinds code) := by
  -- a call's receiver lies two levels down, so the statement carries the object of a field too
  suffices hboth : (∀ code, lowerExpr file e = .ok code → Lowers [e] (kinds code)) ∧
      ∀ object field span, e = .field object field span →
        ∀ code, lowerExpr file object = .ok code → Lowers [object] (kinds code) from hboth.1
  induction e using Expr.induct with
  | ident id => exact ⟨fun code h => lowers_ident h, by simp⟩
  | integer value span =>
    refine ⟨?_, by simp⟩
    intro code h
    simp only [lowerExpr, Except.ok.injEq] at h
    subst h
    exact .integer
  | string value span =>
    refine ⟨?_, by simp⟩
    intro code h
    simp only [lowerExpr, Except.ok.injEq] at h
    subst h
    exact .string
  | bool value span =>
    refine ⟨?_, by simp⟩
    intro code h
    simp only [lowerExpr, Except.ok.injEq] at h
    subst h
    exact .bool
  | array elements span ih =>
    refine ⟨?_, by simp⟩
    intro code h
    rw [lowerExpr] at h
    exact .array (lowers_of_joinAll (fun e he => (ih e he).1) h)
  | unary op e span ih =>
    refine ⟨?_, by simp⟩
    intro code h
    rw [lowerExpr] at h
    obtain ⟨c, hc, h⟩ := bind_eq_ok.mp h
    cases op with
    | not =>
      simp only [pure_eq_ok] at h
      subst h
      have hrule : Lowers [.unary .not e span] _ := Lowers.not (ih.1 c hc)
      simpa using hrule
    | negate => simp [unsupported] at h
  | binary left op right span ihl ihr =>
    refine ⟨?_, by simp⟩
    intro code h
    rw [lowerExpr] at h
    exact lowers_binary ihl.1 ihr.1 h
  | call callee args span ihc ih =>
    refine ⟨?_, by simp⟩
    intro code h
    exact lowers_call ihc.1 ihc.2 (fun e he => (ih e he).1) h
  | field object field span ih =>
    constructor
    · intro code h
      rw [lowerExpr] at h
      exact lowers_field ih.1 h
    · intro object' field' span' heq code h
      cases heq
      exact ih.1 code h

/-- A spend that is lowered: its body is, statement by statement. -/
theorem lowerSpend_eq_ok {spend : Spend} {lowered : IrSpend}
    (h : lowerSpend file spend = .ok lowered) :
    lowered.name = spend.name.name ∧ lowered.params = lowerParams spend.params ∧
      joinAll (spend.body.map (lowerStmt file)) = .ok lowered.instructions := by
  obtain ⟨code, hcode, h⟩ := bind_eq_ok.mp h
  rw [pure_eq_ok] at h
  subst h
  exact ⟨rfl, rfl, hcode⟩

theorem lowerContract_eq_ok {contract : Contract} {lowered : IrContract}
    (h : lowerContract file contract = .ok lowered) :
    lowered.name = contract.name.name ∧ lowered.params = lowerParams contract.params ∧
      contract.spends.mapM (lowerSpend file) = .ok lowered.spends := by
  obtain ⟨spends, hspends, h⟩ := bind_eq_ok.mp h
  rw [pure_eq_ok] at h
  subst h
  exact ⟨rfl, rfl, hspends⟩

theorem lowerProgram_eq_ok {program : Program} {kips : List Nat} {ir : IrProgram}
    (h : lowerProgram program kips file = .ok ir) :
    ir.kipRequirements = kips ∧ ir.application = buildApplicationModel program ∧
      program.contracts.mapM (lowerContract file) = .ok ir.contracts := by
  obtain ⟨contracts, hcontracts, h⟩ := bind_eq_ok.mp h
  rw [pure_eq_ok] at h
  subst h
  exact ⟨rfl, rfl, hcontracts⟩

/-- Every instruction of a lowered spend comes from one of its statements. -/
theorem stmt_of_instruction {spend : Spend} {lowered : IrSpend}
    (h : lowerSpend file spend = .ok lowered) {instruction : Instruction}
    (hmem : instruction ∈ lowered.instructions) :
    ∃ stmt ∈ spend.body, ∃ code, lowerStmt file stmt = .ok code ∧ instruction ∈ code := by
  obtain ⟨_, _, hbody⟩ := lowerSpend_eq_ok h
  obtain ⟨code, hcode, hmem⟩ := Library.exists_of_mem_joinAll hbody hmem
  obtain ⟨stmt, hstmt, hlower⟩ := List.mem_map.mp hcode
  exact ⟨stmt, hstmt, code, hlower, hmem⟩

/-- Every spend of a lowered program comes from a spend of its source. -/
theorem spend_of_lowerProgram {program : Program} {kips : List Nat} {ir : IrProgram}
    (h : lowerProgram program kips file = .ok ir) {loweredContract : IrContract}
    (hcontract : loweredContract ∈ ir.contracts) {loweredSpend : IrSpend}
    (hspend : loweredSpend ∈ loweredContract.spends) :
    ∃ contract ∈ program.contracts, ∃ spend ∈ contract.spends,
      lowerContract file contract = .ok loweredContract ∧
        lowerSpend file spend = .ok loweredSpend := by
  obtain ⟨_, _, hcontracts⟩ := lowerProgram_eq_ok h
  obtain ⟨contract, hmem, hlower⟩ := Library.exists_of_mem_mapM hcontracts hcontract
  obtain ⟨_, _, hspends⟩ := lowerContract_eq_ok hlower
  obtain ⟨spend, hmem', hlower'⟩ := Library.exists_of_mem_mapM hspends hspend
  exact ⟨contract, hmem, spend, hmem', hlower, hlower'⟩

end

/-- The spends of a program and what they are lowered to, one by one. -/
def ForSpends (R : Spend → IrSpend → Prop) (program : Program) (ir : IrProgram) : Prop :=
  List.Forall₂ (fun contract lowered => List.Forall₂ R contract.spends lowered.spends)
    program.contracts ir.contracts

theorem forSpends_iff {file : String} {R : Spend → IrSpend → Prop} {program : Program}
    {kips : List Nat} {ir : IrProgram} (h : lowerProgram program kips file = .ok ir) :
    ForSpends R program ir ↔ ∀ contract ∈ program.contracts, ∀ spend ∈ contract.spends,
      ∀ lowered, lowerSpend file spend = .ok lowered → R spend lowered := by
  obtain ⟨_, _, hcontracts⟩ := lowerProgram_eq_ok h
  rw [ForSpends, Library.forall₂_mapM_iff hcontracts]
  constructor
  · intro hall contract hcontract spend hspend lowered hlowered
    obtain ⟨out, hout⟩ := Library.mapM_isOk.mp ⟨_, hcontracts⟩ contract hcontract
    obtain ⟨_, _, hspends⟩ := lowerContract_eq_ok hout
    exact (Library.forall₂_mapM_iff hspends).mp (hall contract hcontract out hout) spend hspend
      lowered hlowered
  · intro hall contract hcontract out hout
    obtain ⟨_, _, hspends⟩ := lowerContract_eq_ok hout
    exact (Library.forall₂_mapM_iff hspends).mpr (hall contract hcontract)

end KaspaScript
