import KaspaScript.Ir.Lowers
import KaspaScript.Library.StackEffect

namespace KaspaScript

open Library (StackEffect joinAll)
open Library.StackEffect (leaves leaves_mul_leaves)

/-- What an instruction takes off the stack and puts on it. The number of keys is pushed by the
encoder, right before the opcode that reads it. -/
def InstructionKind.effect : InstructionKind → StackEffect
  | .push _ => leaves 1
  | .drop => ⟨1, 0⟩
  | .dup => ⟨1, 2⟩
  | .inputValue _ | .inputScript _ | .outputValue _ | .outputScript _ => leaves 1
  | .outputCount | .inputCount => leaves 1
  | .checkSig _ => ⟨2, 1⟩
  | .checkMultiSig required keyCount => ⟨keyCount + 1 + required, 1⟩
  | .checkLockHeight _ | .checkLockTime _ => leaves 1
  | .checkLockHeightFromStack | .checkLockTimeFromStack => ⟨1, 1⟩
  | .covenantDepth | .covenantId | .sequencingCommitment => leaves 1
  | .zkVerifyGroth16 | .zkVerifyRiscZero => ⟨1, 1⟩
  | .sha256 | .blake2b | .hash160 => ⟨1, 1⟩
  | .checkHashPreimage => ⟨2, 1⟩
  | .verify => ⟨1, 0⟩
  | .equal | .notEqual | .lessThan | .lessThanOrEqual | .greaterThan | .greaterThanOrEqual
  | .and | .or | .add | .sub | .mul | .div | .mod => ⟨2, 1⟩
  | .not => ⟨1, 1⟩

def codeEffect (code : List InstructionKind) : StackEffect :=
  (code.map InstructionKind.effect).prod

@[simp] theorem codeEffect_nil : codeEffect [] = 1 := rfl

@[simp] theorem codeEffect_singleton (kind : InstructionKind) : codeEffect [kind] = kind.effect := by
  simp [codeEffect]

@[simp] theorem codeEffect_append (xs ys : List InstructionKind) :
    codeEffect (xs ++ ys) = codeEffect xs * codeEffect ys := by
  simp [codeEffect]

theorem codeEffect_cons (kind : InstructionKind) (code : List InstructionKind) :
    codeEffect (kind :: code) = kind.effect * codeEffect code := rfl

/-- `multisig`: the signatures, the threshold, the keys, then the opcode. -/
def multisigEffect (args : List Expr) (effects : List StackEffect) : StackEffect :=
  match args.head? with
  | some (.integer required _) =>
      (effects[2]?).getD 1 * leaves 1 * (effects[1]?).getD 1 *
        ⟨multisigKeyCount args + 1 + required, 1⟩
  | _ => 1

/-- A call's effect, given those of its receiver, its callee and its arguments. -/
def callEffect (callee : Expr) (args : List Expr) (receiver calleeEffect : StackEffect)
    (effects : List StackEffect) : StackEffect :=
  match callee with
  | .field _ field _ =>
      if field.name = "verify" then receiver * (effects.take 1).prod * ⟨2, 1⟩
      else calleeEffect * effects.prod
  | .ident id =>
      match id.name with
      | "input" | "output" | "continuation" => leaves 1
      | "multisig" => multisigEffect args effects
      | "zk_verify" | "sha256" | "blake2b" | "hash160" => (effects.take 1).prod * ⟨1, 1⟩
      | _ => calleeEffect * effects.prod
  | _ => calleeEffect * effects.prod

mutual

/-- The stack effect of an expression, read off its source. -/
def Expr.effect : Expr → StackEffect
  | .ident _ | .integer _ _ | .string _ _ | .bool _ _ => leaves 1
  | .array elements _ => (effectEach elements).prod
  | .unary _ expr _ => Expr.effect expr * ⟨1, 1⟩
  | .binary left op right _ =>
      if (lockClock left op).isSome then
        if isIntegerLiteral right then leaves 1 else Expr.effect right * ⟨1, 1⟩
      else Expr.effect left * Expr.effect right * ⟨2, 1⟩
  | .call callee args _ =>
      callEffect callee args
        (match callee with
          | .field object _ _ => Expr.effect object
          | _ => 1)
        (Expr.effect callee) (effectEach args)
  | .field object field _ =>
      if (fieldBuiltin object field.name).isSome then leaves 1 else Expr.effect object * leaves 1

def effectEach : List Expr → List StackEffect
  | [] => []
  | expr :: rest => Expr.effect expr :: effectEach rest

end

attribute [grind =] Expr.effect effectEach

theorem effectEach_eq (es : List Expr) : effectEach es = es.map Expr.effect := by
  induction es with
  | nil => rw [effectEach, List.map_nil]
  | cons e es ih => rw [effectEach, List.map_cons, ih]

theorem binaryKind_effect (op : BinaryOp) : (binaryKind op).effect = ⟨2, 1⟩ := by
  cases op <;> rfl

theorem prod_toList (es : List Expr) (n : Nat) :
    (es[n]?.toList.map Expr.effect).prod = ((es.map Expr.effect)[n]?).getD 1 := by
  rw [List.getElem?_map]
  cases es[n]? <;> simp

theorem unaryBuiltin_effect {name : String} {kind : InstructionKind}
    (h : unaryBuiltin name = some kind) :
    kind.effect = ⟨1, 1⟩ ∧ name ∈ ["zk_verify", "sha256", "blake2b", "hash160"] := by
  unfold unaryBuiltin at h
  split at h <;> cases h <;> exact ⟨rfl, by simp⟩

theorem fieldBuiltin_effect {object : Expr} {field : String} {kind : InstructionKind}
    (h : fieldBuiltin object field = some kind) : kind.effect = leaves 1 := by
  unfold fieldBuiltin at h
  split at h
  · unfold indexedKind at h
    split at h <;> cases h <;> rfl
  · cases h
  · split_ifs at h <;> cases h <;> rfl

theorem callEffect_unary {id : Ident} {args : List Expr} {receiver calleeEffect : StackEffect}
    {effects : List StackEffect} (h : id.name ∈ ["zk_verify", "sha256", "blake2b", "hash160"]) :
    callEffect (.ident id) args receiver calleeEffect effects =
      (effects.take 1).prod * ⟨1, 1⟩ := by
  simp only [List.mem_cons, List.not_mem_nil, or_false] at h
  rcases h with h | h | h | h <;> simp only [callEffect, h]

theorem callEffect_other {callee : Expr} {args : List Expr} {receiver calleeEffect : StackEffect}
    {effects : List StackEffect} (h : isBuiltinCallee callee = false) :
    callEffect callee args receiver calleeEffect effects = calleeEffect * effects.prod := by
  cases callee with
  | field object field span =>
    have hfield : field.name ≠ "verify" := by simpa [isBuiltinCallee] using h
    simp only [callEffect, hfield, if_false]
  | ident id =>
    have hname : id.name ∉ builtinCallNames := by simpa [isBuiltinCallee] using h
    simp only [builtinCallNames, List.mem_cons, List.not_mem_nil, or_false, not_or] at hname
    simp only [callEffect]
    split <;> first | rfl | tauto
  | _ => rfl

theorem effect_call {callee : Expr} {args : List Expr} {span : Span}
    (h : isBuiltinCallee callee = false) :
    (Expr.call callee args span).effect = callee.effect * (args.map Expr.effect).prod := by
  rw [← effectEach_eq]
  cases callee with
  | field object field span' =>
    rw [Expr.effect]
    exact callEffect_other h
  | _ =>
    rw [Expr.effect]
    · exact callEffect_other h
    all_goals simp

/-- The instructions of an expression do to the stack what its source says. -/
theorem effect_of_lowers {es : List Expr} {code : List InstructionKind} (h : Lowers es code) :
    codeEffect code = (es.map Expr.effect).prod := by
  induction h with
  | nil => rfl
  | @cons e es code rest _ _ ihe ihes =>
    rw [codeEffect_append, ihe, ihes]
    simp
  | inputCount _ | outputCount _ | symbol _ _ | integer | string | bool =>
    simp [Expr.effect, InstructionKind.effect]
  | array _ ih => simp [Expr.effect, effectEach_eq, ih]
  | not _ ih =>
    rw [codeEffect_append, ih]
    simp [Expr.effect, InstructionKind.effect]
  | @lockLiteral left value span span' clock hclock =>
    cases clock <;> simp [Expr.effect, hclock, isIntegerLiteral, LockClock.literal,
      InstructionKind.effect]
  | @lockStack left right span clock code hclock hright _ ih =>
    rw [codeEffect_append, ih]
    cases clock <;> simp [Expr.effect, hclock, hright, LockClock.fromStack, InstructionKind.effect]
  | binary hclock _ _ ihl ihr =>
    rw [codeEffect_append, codeEffect_append, ihl, ihr]
    simp [Expr.effect, hclock, binaryKind_effect]
  | verify hfield _ _ iho ihk =>
    rw [codeEffect_append, codeEffect_append, iho, ihk]
    simp [Expr.effect, callEffect, hfield, effectEach_eq, InstructionKind.effect, List.map_take]
  | @indexCall id value span span' rest hid _ =>
    rcases hid with hid | hid <;>
      simp [Expr.effect, callEffect, hid, InstructionKind.effect]
  | continuation hid _ =>
    simp [Expr.effect, callEffect, hid, codeEffect_cons, InstructionKind.effect]
    rfl
  | multisig hid _ _ _ ihs ihk =>
    rw [codeEffect_append, codeEffect_append, codeEffect_append, ihs, ihk, prod_toList, prod_toList]
    simp [Expr.effect, callEffect, hid, multisigEffect, effectEach_eq, InstructionKind.effect]
  | unaryCall hid _ ih =>
    obtain ⟨hkind, hname⟩ := unaryBuiltin_effect hid
    rw [codeEffect_append, ih, codeEffect_singleton, hkind]
    simp [Expr.effect, callEffect_unary hname, effectEach_eq, List.map_take]
  | call hcallee _ _ ihc iha =>
    rw [codeEffect_append, ihc, iha]
    simp [effect_call hcallee]
  | builtinField hkind =>
    rw [codeEffect_singleton, fieldBuiltin_effect hkind]
    simp [Expr.effect, hkind]
  | field hobject hnone _ ih =>
    rw [codeEffect_append, ih]
    simp [Expr.effect, hnone, InstructionKind.effect]

end KaspaScript
