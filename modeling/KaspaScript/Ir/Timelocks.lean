import KaspaScript.Ir.Effects
import KaspaScript.Ir.Substitute

namespace KaspaScript

open Library (joinAll joinAll_cons bind_eq_ok pure_eq_ok)

section

variable {file : String}

theorem joinAll_lowerEach_singleton (e : Expr) :
    joinAll (lowerEach file [e]) = lowerExpr file e := by
  rw [lowerEach, lowerEach, Library.joinAll_singleton]

theorem kinds_of_lowers_lock {left right : Expr} {span : Span} {clock : LockClock}
    {code : List InstructionKind} (hclock : lockClock left .greaterEqual = some clock)
    (hright : isIntegerLiteral right = false)
    (ih : ∀ c, lowerExpr file right = .ok c → kinds c = code) {c : List Instruction}
    (h : lowerExpr file (.binary left .greaterEqual right span) = .ok c) :
    kinds c = code ++ [clock.fromStack] := by
  rw [lowerExpr, lowerBinary, lowerSpecialBinary_eq, hclock, Option.map_some] at h
  have hbind : (lowerExpr file right >>= fun r => pure (r ++ emit span clock.fromStack)) =
      .ok c := by
    cases right with
    | integer value span' => cases hright
    | _ => exact h
  obtain ⟨r, hr, hc⟩ := bind_eq_ok.mp hbind
  obtain rfl := pure_eq_ok.mp hc
  rw [kinds_append, ih r hr, kinds_emit]

theorem kinds_of_lowers_multisig {id : Ident} {required : Nat} {rest : List Expr}
    {span span' : Span} {cs ck : List InstructionKind} (hid : id.name = "multisig")
    (hrequired : required ≤ u32Max)
    (ihs : ∀ c, joinAll (lowerEach file rest[1]?.toList) = .ok c → kinds c = cs)
    (ihk : ∀ c, joinAll (lowerEach file rest[0]?.toList) = .ok c → kinds c = ck)
    {c : List Instruction}
    (h : lowerExpr file (.call (.ident id) (.integer required span' :: rest) span) = .ok c) :
    kinds c = cs ++ [.push (.integer required)] ++ ck ++
      [.checkMultiSig required (multisigKeyCount (.integer required span' :: rest))] := by
  rw [lowerExpr_call _ _ (by simp)] at h
  simp only [lowerCall, hid, lowerMultisig, List.head?_cons, if_pos hrequired, lowerEach,
    List.getElem?_cons_succ] at h
  obtain ⟨s, hs, h⟩ := bind_eq_ok.mp h
  obtain ⟨k, hk, h⟩ := bind_eq_ok.mp h
  obtain rfl := pure_eq_ok.mp h
  rw [lowerEach_getElem?] at hs hk
  simp only [kinds_append, kinds_emit, ihs s hs, ihk k hk]

/-- The rules are those of the code generator: what it makes of the same expressions is what the
rules say. -/
theorem kinds_of_lowers {es : List Expr} {code : List InstructionKind} (h : Lowers es code) :
    ∀ c, joinAll (lowerEach file es) = .ok c → kinds c = code := by
  induction h with
  | nil =>
    intro c hc
    obtain rfl := Except.ok.inj hc
    rfl
  | cons he hes ih ihs =>
    intro c hc
    rw [lowerEach] at hc
    obtain ⟨first, rest, hfirst, hrest, rfl⟩ := joinAll_cons.mp hc
    rw [kinds_append, ih first (by rw [joinAll_lowerEach_singleton, hfirst]),
      ihs rest hrest]
  | inputCount hid | outputCount hid =>
    intro c hc
    simp only [joinAll_lowerEach_singleton, lowerExpr, hid, Except.ok.injEq] at hc
    rw [← hc, kinds_emit]
  | symbol hin hout =>
    intro c hc
    simp only [joinAll_lowerEach_singleton, lowerExpr, Except.ok.injEq] at hc
    rw [← hc, kinds_emit]
  | integer | string | bool =>
    intro c hc
    simp only [joinAll_lowerEach_singleton, lowerExpr, Except.ok.injEq] at hc
    rw [← hc, kinds_emit]
  | array _ ih =>
    intro c hc
    rw [joinAll_lowerEach_singleton, lowerExpr] at hc
    exact ih c hc
  | not _ ih =>
    intro c hc
    rw [joinAll_lowerEach_singleton, lowerExpr] at hc
    obtain ⟨inner, hinner, hc⟩ := bind_eq_ok.mp hc
    obtain rfl := pure_eq_ok.mp hc
    rw [kinds_append, kinds_emit, ih inner (by rwa [joinAll_lowerEach_singleton])]
  | lockLiteral hclock =>
    intro c hc
    rw [joinAll_lowerEach_singleton, lowerExpr, lowerBinary,
      lowerSpecialBinary_eq, hclock] at hc
    obtain rfl := Except.ok.inj hc
    rfl
  | lockStack hclock hright _ ih =>
    intro c hc
    rw [joinAll_lowerEach_singleton] at hc
    apply kinds_of_lowers_lock hclock hright _ hc
    intro r hr
    exact ih r (by rwa [joinAll_lowerEach_singleton])
  | binary hclock _ _ ihl ihr =>
    intro c hc
    rw [joinAll_lowerEach_singleton, lowerExpr, lowerBinary,
      lowerSpecialBinary_eq, hclock] at hc
    obtain ⟨l, hl, hc⟩ := bind_eq_ok.mp hc
    obtain ⟨r, hr, hc⟩ := bind_eq_ok.mp hc
    obtain rfl := pure_eq_ok.mp hc
    rw [kinds_append, kinds_append, kinds_emit,
      ihl l (by rwa [joinAll_lowerEach_singleton]),
      ihr r (by rwa [joinAll_lowerEach_singleton])]
  | verify hname _ _ iho ihk =>
    intro c hc
    rw [joinAll_lowerEach_singleton, lowerExpr] at hc
    simp only [lowerCall, if_pos hname, lowerEach_take] at hc
    obtain ⟨o, ho, hc⟩ := bind_eq_ok.mp hc
    obtain ⟨k, hk, hc⟩ := bind_eq_ok.mp hc
    obtain rfl := pure_eq_ok.mp hc
    rw [kinds_append, kinds_append, kinds_emit, ihk k hk,
      iho o (by rwa [joinAll_lowerEach_singleton])]
  | indexCall hid hvalue =>
    intro c hc
    rw [joinAll_lowerEach_singleton, lowerExpr_call _ _ (by simp)] at hc
    rcases hid with hid | hid <;>
    · simp only [lowerCall, hid, lowerIndexCall, if_pos hvalue, Except.ok.injEq] at hc
      rw [← hc, kinds_emit]
  | continuation hid hindex =>
    intro c hc
    rw [joinAll_lowerEach_singleton, lowerExpr_call _ _ (by simp)] at hc
    simp only [lowerCall, hid, lowerContinuation, hindex, Except.ok.injEq] at hc
    rw [← hc]
    rfl
  | multisig hid hrequired _ _ ihs ihk =>
    intro c hc
    rw [joinAll_lowerEach_singleton] at hc
    exact kinds_of_lowers_multisig hid hrequired ihs ihk hc
  | unaryCall hid _ ih =>
    intro c hc
    rw [joinAll_lowerEach_singleton, lowerExpr_call _ _ (by simp)] at hc
    unfold unaryBuiltin at hid
    split at hid <;> cases hid <;>
    · simp only [lowerCall, *, lowerFirst, lowerEach_take] at hc
      obtain ⟨first, hfirst, hc⟩ := bind_eq_ok.mp hc
      obtain rfl := pure_eq_ok.mp hc
      rw [kinds_append, kinds_emit, ih first hfirst]
  | call hcallee _ _ ihc iha =>
    intro c hc
    rw [joinAll_lowerEach_singleton, lowerExpr_unrecognized hcallee] at hc
    obtain ⟨f, hf, hc⟩ := bind_eq_ok.mp hc
    obtain ⟨a, ha, hc⟩ := bind_eq_ok.mp hc
    obtain rfl := pure_eq_ok.mp hc
    rw [kinds_append, iha a ha, ihc f (by rwa [joinAll_lowerEach_singleton])]
  | builtinField hkind =>
    intro c hc
    rw [joinAll_lowerEach_singleton, lowerExpr, lowerField] at hc
    unfold fieldBuiltin at hkind
    split at hkind
    · rename_i hobject
      simp only [hobject, hkind] at hc
      split_ifs at hc
      · rw [← Except.ok.inj hc, kinds_emit]
      · cases hc
    · cases hkind
    · rename_i hobject
      simp only [hobject] at hc
      split_ifs at hkind hc <;>
      · rw [← Except.ok.inj hc, kinds_emit, Option.some.inj hkind]
  | field hobject hfield _ ih =>
    intro c hc
    rw [joinAll_lowerEach_singleton, lowerExpr, lowerField, hobject] at hc
    simp only [fieldBuiltin, hobject] at hfield
    split_ifs at hfield with hdepth hsequencing
    simp only [if_neg hdepth, if_neg hsequencing] at hc
    obtain ⟨o, ho, hc⟩ := bind_eq_ok.mp hc
    obtain rfl := pure_eq_ok.mp hc
    rw [kinds_append, kinds_emit, ih o (by rwa [joinAll_lowerEach_singleton])]

end

/-- A comparison that is lowered to a check of the transaction's lock. -/
structure Timelock where
  clock : LockClock
  bound : Expr

/-- The check itself: a literal bound stands in the instruction, any other on the stack. -/
def Timelock.check (lock : Timelock) : InstructionKind :=
  match lock.bound with
  | .integer value _ => lock.clock.literal value
  | _ => lock.clock.fromStack

def InstructionKind.isLockCheck : InstructionKind → Bool
  | .checkLockHeight _ | .checkLockTime _ | .checkLockHeightFromStack | .checkLockTimeFromStack =>
      true
  | _ => false

/-- A call's timelocks, given those of its receiver, its callee and its arguments. -/
def callTimelocks (callee : Expr) (receiver calleeLocks : List Timelock)
    (locks : List (List Timelock)) : List Timelock :=
  match callee with
  | .field _ field _ =>
      if field.name = "verify" then receiver ++ (locks.take 1).flatten
      else calleeLocks ++ locks.flatten
  | .ident id =>
      match id.name with
      | "input" | "output" | "continuation" => []
      | "multisig" => (locks[2]?).getD [] ++ (locks[1]?).getD []
      | "zk_verify" | "sha256" | "blake2b" | "hash160" => (locks.take 1).flatten
      | _ => calleeLocks ++ locks.flatten
  | _ => calleeLocks ++ locks.flatten

mutual

/-- The timelocks of an expression in the order of their checks. -/
def Expr.timelocks : Expr → List Timelock
  | .ident _ | .integer _ _ | .string _ _ | .bool _ _ => []
  | .array elements _ => (timelocksEach elements).flatten
  | .unary _ expr _ => Expr.timelocks expr
  | .binary left op right _ =>
      match lockClock left op with
      | some clock =>
          (if isIntegerLiteral right then [] else Expr.timelocks right) ++ [⟨clock, right⟩]
      | none => Expr.timelocks left ++ Expr.timelocks right
  | .call callee args _ =>
      callTimelocks callee
        (match callee with
          | .field object _ _ => Expr.timelocks object
          | _ => [])
        (Expr.timelocks callee) (timelocksEach args)
  | .field object field _ =>
      if (fieldBuiltin object field.name).isSome then [] else Expr.timelocks object

def timelocksEach : List Expr → List (List Timelock)
  | [] => []
  | expr :: rest => Expr.timelocks expr :: timelocksEach rest

end

attribute [grind =] Expr.timelocks timelocksEach

theorem timelocksEach_eq (es : List Expr) : timelocksEach es = es.map Expr.timelocks := by
  induction es with
  | nil => rw [timelocksEach, List.map_nil]
  | cons e es ih => rw [timelocksEach, List.map_cons, ih]

theorem timelocks_toList (es : List Expr) (n : Nat) :
    (es[n]?.toList.flatMap Expr.timelocks) = ((es.map Expr.timelocks)[n]?).getD [] := by
  rw [List.getElem?_map]
  cases es[n]? <;> simp

theorem callTimelocks_unary {id : Ident} {receiver calleeLocks : List Timelock}
    {locks : List (List Timelock)}
    (h : id.name ∈ ["zk_verify", "sha256", "blake2b", "hash160"]) :
    callTimelocks (.ident id) receiver calleeLocks locks = (locks.take 1).flatten := by
  simp only [List.mem_cons, List.not_mem_nil, or_false] at h
  rcases h with h | h | h | h <;> simp only [callTimelocks, h]

theorem timelocks_call {callee : Expr} {args : List Expr} {span : Span}
    (h : isBuiltinCallee callee = false) :
    (Expr.call callee args span).timelocks =
      callee.timelocks ++ args.flatMap Expr.timelocks := by
  rw [List.flatMap_def, ← timelocksEach_eq]
  cases callee with
  | field object field span' =>
    have hfield : field.name ≠ "verify" := by simpa [isBuiltinCallee] using h
    rw [Expr.timelocks]
    simp only [callTimelocks, if_neg hfield]
  | ident id =>
    have hname : id.name ∉ builtinCallNames := by simpa [isBuiltinCallee] using h
    simp only [builtinCallNames, List.mem_cons, List.not_mem_nil, or_false, not_or] at hname
    change callTimelocks (.ident id) [] (Expr.ident id).timelocks (timelocksEach args) = _
    simp only [callTimelocks]
    split <;> first | rfl | tauto
  | _ => rfl

/-- The code of a timelock: that of its bound, unless it is a literal, and the check. -/
inductive ChecksLock : Timelock → List InstructionKind → Prop
  | literal {clock value span} : ChecksLock ⟨clock, .integer value span⟩ [clock.literal value]
  | fromStack {clock bound code} : isIntegerLiteral bound = false → Lowers [bound] code →
      ChecksLock ⟨clock, bound⟩ (code ++ [clock.fromStack])

/-- Some stretch of the code is that of the timelock. -/
def StretchOf (lock : Timelock) (code : List InstructionKind) : Prop :=
  ∃ before stretch after, code = before ++ stretch ++ after ∧ ChecksLock lock stretch

section

variable {lock : Timelock} {code : List InstructionKind}

theorem StretchOf.append_left (h : StretchOf lock code) (front : List InstructionKind) :
    StretchOf lock (front ++ code) := by
  obtain ⟨before, stretch, after, rfl, hchecks⟩ := h
  exact ⟨front ++ before, stretch, after, by simp, hchecks⟩

theorem StretchOf.append_right (h : StretchOf lock code) (back : List InstructionKind) :
    StretchOf lock (code ++ back) := by
  obtain ⟨before, stretch, after, rfl, hchecks⟩ := h
  exact ⟨before, stretch, after ++ back, by simp, hchecks⟩

theorem ChecksLock.stretchOf (h : ChecksLock lock code) : StretchOf lock code :=
  ⟨[], code, [], by simp, h⟩

end

theorem lockChecks_binaryKind (op : BinaryOp) : (binaryKind op).isLockCheck = false := by
  cases op <;> rfl

/-- The checks in the code of some expressions, and where they stand. -/
structure TimelocksKept (locks : List Timelock) (code : List InstructionKind) : Prop where
  checks : code.filter InstructionKind.isLockCheck = locks.map Timelock.check
  stretches : ∀ lock ∈ locks, StretchOf lock code

namespace TimelocksKept

variable {locks locks' : List Timelock} {code code' : List InstructionKind}

theorem none (h : code.filter InstructionKind.isLockCheck = []) : TimelocksKept [] code :=
  ⟨by rw [h, List.map_nil], by simp⟩

theorem append (h : TimelocksKept locks code) (h' : TimelocksKept locks' code') :
    TimelocksKept (locks ++ locks') (code ++ code') := by
  constructor
  · rw [List.filter_append, h.checks, h'.checks, List.map_append]
  · intro lock hlock
    rcases List.mem_append.mp hlock with hlock | hlock
    · exact (h.stretches lock hlock).append_right code'
    · exact (h'.stretches lock hlock).append_left code

/-- An instruction that checks no lock changes nothing. -/
theorem concat (h : TimelocksKept locks code) {kind : InstructionKind}
    (hkind : kind.isLockCheck = false) : TimelocksKept locks (code ++ [kind]) := by
  simpa using h.append (@none [kind] (by simp [hkind]))

end TimelocksKept

theorem unaryBuiltin_isLockCheck {name : String} {kind : InstructionKind}
    (h : unaryBuiltin name = some kind) : kind.isLockCheck = false := by
  unfold unaryBuiltin at h
  split at h <;> cases h <;> rfl

theorem fieldBuiltin_isLockCheck {object : Expr} {field : String} {kind : InstructionKind}
    (h : fieldBuiltin object field = some kind) : kind.isLockCheck = false := by
  unfold fieldBuiltin at h
  split at h
  · unfold indexedKind at h
    split at h <;> cases h <;> rfl
  · cases h
  · split_ifs at h <;> cases h <;> rfl

/-- The lock checks of lowered expressions are those of their timelocks, in order. -/
theorem timelocksKept_of_lowers {es : List Expr} {code : List InstructionKind}
    (h : Lowers es code) : TimelocksKept (es.flatMap Expr.timelocks) code := by
  have single (e : Expr) : [e].flatMap Expr.timelocks = e.timelocks := by simp
  induction h with
  | nil => exact .none rfl
  | cons _ _ ihe ihes =>
    rw [single] at ihe
    exact ihe.append ihes
  | inputCount _ | outputCount _ | symbol _ _ | integer | string | bool =>
    rw [single, Expr.timelocks]
    exact .none rfl
  | array _ ih =>
    rw [single, Expr.timelocks, timelocksEach_eq, ← List.flatMap_def]
    exact ih
  | not _ ih =>
    rw [single] at ih ⊢
    rw [Expr.timelocks]
    exact ih.concat rfl
  | @lockLiteral left value span span' clock hclock =>
    rw [single, Expr.timelocks, hclock]
    constructor
    · cases clock <;> rfl
    · intro lock hlock
      obtain rfl := List.mem_singleton.mp hlock
      exact ChecksLock.literal.stretchOf
  | @lockStack left right span clock code hclock hright hcode ih =>
    rw [single] at ih ⊢
    have hstretch : ChecksLock ⟨clock, right⟩ (code ++ [clock.fromStack]) :=
      .fromStack hright hcode
    rw [Expr.timelocks, hclock]
    simp only [hright, Bool.false_eq_true, if_false]
    constructor
    · have hcheck : Timelock.check ⟨clock, right⟩ = clock.fromStack := by
        cases right with
        | integer value span' => cases hright
        | _ => rfl
      rw [List.filter_append, ih.checks, List.map_append, List.map_singleton, hcheck]
      cases clock <;> rfl
    · intro lock hlock
      rcases List.mem_append.mp hlock with hlock | hlock
      · exact (ih.stretches lock hlock).append_right _
      · obtain rfl := List.mem_singleton.mp hlock
        exact hstretch.stretchOf
  | @binary left op right span cl cr hclock _ _ ihl ihr =>
    rw [single] at ihl ihr ⊢
    rw [Expr.timelocks, hclock]
    exact (ihl.append ihr).concat (lockChecks_binaryKind op)
  | verify hfield _ _ iho ihk =>
    rw [single] at iho ⊢
    rw [Expr.timelocks]
    simp only [callTimelocks, hfield, if_true, timelocksEach_eq, ← List.map_take]
    exact (iho.append ihk).concat rfl
  | @indexCall id value span span' rest hid _ =>
    rw [single]
    have hnone : (Expr.call (.ident id) (.integer value span' :: rest) span).timelocks = [] := by
      rcases hid with hid | hid <;> simp [Expr.timelocks, callTimelocks, hid]
    rw [hnone]
    exact .none rfl
  | @continuation id args span index hid _ =>
    rw [single]
    have hnone : (Expr.call (.ident id) args span).timelocks = [] := by
      simp [Expr.timelocks, callTimelocks, hid]
    rw [hnone]
    exact .none rfl
  | @multisig id required rest span span' cs ck hid _ _ _ ihs ihk =>
    rw [single]
    have hlocks : (Expr.call (.ident id) (.integer required span' :: rest) span).timelocks =
        rest[1]?.toList.flatMap Expr.timelocks ++ rest[0]?.toList.flatMap Expr.timelocks := by
      simp [Expr.timelocks, callTimelocks, hid, timelocksEach_eq, timelocks_toList]
    rw [hlocks]
    exact ((ihs.concat rfl).append ihk).concat rfl
  | @unaryCall id args span kind code hid _ ih =>
    rw [single]
    have hlocks : (Expr.call (.ident id) args span).timelocks =
        (args.take 1).flatMap Expr.timelocks := by
      rw [Expr.timelocks, callTimelocks_unary (unaryBuiltin_effect hid).2, timelocksEach_eq,
        ← List.map_take, List.flatMap_def]
      simp
    rw [hlocks]
    exact ih.concat (unaryBuiltin_isLockCheck hid)
  | call hcallee _ _ ihc iha =>
    rw [single] at ihc ⊢
    rw [timelocks_call hcallee]
    exact ihc.append iha
  | builtinField hkind =>
    rw [single, Expr.timelocks, hkind]
    exact .none (by simp [fieldBuiltin_isLockCheck hkind])
  | field hobject hnone _ ih =>
    rw [single] at ih ⊢
    rw [Expr.timelocks, hnone]
    exact ih.concat rfl

end KaspaScript
