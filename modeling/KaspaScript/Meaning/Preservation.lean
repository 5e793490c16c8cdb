import KaspaScript.Engine.Encoding
import KaspaScript.Ir.Lowers
import KaspaScript.Meaning.Fragment

namespace KaspaScript

open Library (InOrder joinAll joinAll_cons matchInOrder_eq run_append run_cons)
open Library.ScriptNum (encode decode_encode encode_injective isMinimal_encode length_encode
  unsigned unsigned_encode)

/-- What a transaction always satisfies here: amounts fit `i64`, and no list is longer than a
Rust vector can be. -/
structure Admissible (populated : PopulatedTransaction) : Prop where
  entries : ∀ entry ∈ populated.entries, entry.amount ≤ i64Max
  outputs : ∀ output ∈ populated.tx.outputs, output.value ≤ i64Max
  inputCount : populated.tx.inputs.length ≤ i64Max
  outputCount : populated.tx.outputs.length ≤ i64Max

/-- Every declared parameter has a value of its type. -/
def Assigns (Γ : Declared) (value : String → Val) : Prop :=
  ∀ name ty, Γ name = some ty → (value name).HasTy ty.ty

theorem numFits_of_le {n : Nat} (h : n ≤ i64Max) : NumFits n := by
  unfold NumFits
  unfold i64Max at h
  omega

@[simp] theorem readNum_encode {n : Int} (h : NumFits n) : readNum (encode n) = some n := by
  rw [readNum, if_pos ⟨length_encode h, isMinimal_encode n⟩, decode_encode]

theorem numFits_truth (b : Bool) : NumFits (truth b) := by
  cases b <;> decide

theorem boolBytes_eq (b : Bool) : boolBytes b = encode (truth b) := by
  cases b <;> rfl

@[simp] theorem readNum_boolBytes (b : Bool) : readNum (boolBytes b) = some (truth b) := by
  rw [boolBytes_eq, readNum_encode (numFits_truth b)]

theorem pushNum_truth (b : Bool) (stack : Stack) :
    pushNum (truth b) stack = some (boolBytes b :: stack) := by
  rw [pushNum, if_pos (numFits_truth b), boolBytes_eq]

theorem pushNum_eq_checked (n : Int) (stack : Stack) :
    pushNum n stack = (checked n).map fun v => v.push stack := by
  unfold pushNum checked
  split_ifs <;> rfl

@[simp] theorem isTrue_boolBytes (b : Bool) : isTrue (boolBytes b) = b := by
  cases b <;> rfl

theorem boolBytes_injective : Function.Injective boolBytes := by
  intro a b h
  cases a <;> cases b <;> simp_all [boolBytes]

/-- A number on the stack as the engine's lock opcode reads it. -/
def lockReading (n : Int) : Int := if 0 ≤ n then n else unsigned (encode n)

theorem lockSatisfied_encode (env : ScriptEnv) {n : Int} (h : NumFits n) :
    lockSatisfied env (encode n) = lockReached env (lockReading n) := by
  have hreading : lockReading n = (unsigned (encode n) : Int) := by
    unfold lockReading
    split_ifs with hn
    · obtain ⟨m, rfl⟩ := Int.eq_ofNat_of_zero_le hn
      exact congrArg Nat.cast (unsigned_encode m).symm
    · rfl
  rw [hreading]
  simp only [lockSatisfied, lockReached, length_encode h, decide_true, Bool.true_and, Nat.cast_le]
  norm_cast

/-- Running the opcodes leaves the value on any stack, or aborts without one. -/
def Computes (env : ScriptEnv) (ops : List Opcode) (v : Option Val) : Prop :=
  ∀ stack, runOpcodes env ops stack = v.map fun v => v.push stack

namespace Computes

variable {env : ScriptEnv} {ops ops' tail : List Opcode} {v w : Option Val}

theorem push {a : Val} {data : Bytes} (h : ∀ stack, a.push stack = data :: stack) :
    Computes env [.push data] (some a) := by
  intro stack
  simp [runOpcodes, execOpcode, h]

theorem unary {f : Val → Option Val} (h : Computes env ops v)
    (htail : ∀ a, v = some a → ∀ stack,
      runOpcodes env tail (a.push stack) = (f a).map fun r => r.push stack) :
    Computes env (ops ++ tail) (v.bind f) := by
  intro stack
  rw [runOpcodes, run_append]
  change (runOpcodes env ops stack).bind (runOpcodes env tail) = _
  rw [h stack]
  cases v with
  | none => rfl
  | some a => exact htail a rfl stack

theorem binary {f : Val → Val → Option Val} (h : Computes env ops v) (h' : Computes env ops' w)
    (htail : ∀ a b, v = some a → w = some b → ∀ stack,
      runOpcodes env tail (b.push (a.push stack)) = (f a b).map fun r => r.push stack) :
    Computes env (ops ++ ops' ++ tail) (v.bind fun a => w.bind (f a)) := by
  intro stack
  rw [List.append_assoc, runOpcodes, run_append]
  change (runOpcodes env ops stack).bind (runOpcodes env (ops' ++ tail)) = _
  rw [h stack]
  cases v with
  | none => rfl
  | some a =>
    simp only [Option.map_some, Option.bind_some]
    rw [runOpcodes, run_append]
    change (runOpcodes env ops' (a.push stack)).bind (runOpcodes env tail) = _
    rw [h' (a.push stack)]
    cases w with
    | none => rfl
    | some b => exact htail a b rfl rfl stack

end Computes

section

variable {env : ScriptEnv}

theorem runOpcodes_numeric {op : NumOp} {a b : Int} (ha : NumFits a) (hb : NumFits b)
    (stack : Stack) :
    runOpcodes env [.numeric op] (encode b :: encode a :: stack) = pushNum (op.eval a b) stack := by
  simp [runOpcodes, execOpcode, ha, hb]

theorem runOpcodes_logical {op : NumOp} {a b : Bool} (stack : Stack) :
    runOpcodes env [.numeric op] (boolBytes b :: boolBytes a :: stack) =
      pushNum (op.eval (truth a) (truth b)) stack := by
  simp [runOpcodes, execOpcode]

theorem runOpcodes_equal (a b : Bytes) (stack : Stack) :
    runOpcodes env [.equal] (b :: a :: stack) = some (boolBytes (a == b) :: stack) := by
  simp [runOpcodes, execOpcode]

/-- A number below the elements it counts is read back as that count. -/
theorem popCounted_append {items : List Bytes} (h : items.length ≤ i64Max) (stack : Stack) :
    popCounted (encode items.length :: (items.reverse ++ stack)) = some (items, stack) := by
  rw [popCounted, readNum_encode (numFits_of_le h)]
  simp

theorem execCheckMultiSig_append {keys signatures : List Bytes} (hk : keys.length ≤ i64Max)
    (hs : signatures.length ≤ keys.length) (stack : Stack) :
    execCheckMultiSig env (encode keys.length :: (keys.reverse ++
        (encode signatures.length :: (signatures.reverse ++ stack)))) =
      some (boolBytes (Library.matchInOrder env.checkSig signatures keys) :: stack) := by
  rw [execCheckMultiSig, popCounted_append hk]
  simp only [Option.bind_some]
  rw [popCounted_append (by omega)]
  simp [hs]

end

/-- A parameter's symbol pushes its value; everything else keeps its opcodes. -/
def boundOpcodes (value : String → Val) : InstructionKind → List Opcode
  | .push (.symbol name) => ((value name).push []).reverse.map .push
  | kind => opcodes kind

def boundAll (value : String → Val) (code : List Instruction) : List Opcode :=
  (kinds code).flatMap (boundOpcodes value)

@[simp] theorem boundAll_append (value : String → Val) (xs ys : List Instruction) :
    boundAll value (xs ++ ys) = boundAll value xs ++ boundAll value ys := by
  simp [boundAll]

@[simp] theorem boundAll_emit (value : String → Val) (span : Span) (kind : InstructionKind) :
    boundAll value (emit span kind) = boundOpcodes value kind := by
  simp [boundAll]

/-- The bytes of a text with one byte are those of a text with one ASCII character. -/
theorem dataPush_utf8Bytes {text : String} (h : isControlText text = false) :
    dataPush (utf8Bytes text) = .push (utf8Bytes text) := by
  rw [dataPush, if_neg]
  rintro ⟨hne, hshorter⟩
  unfold utf8Bytes at hne hshorter
  unfold isControlText at h
  generalize text.toList = chars at hne hshorter h
  cases chars with
  | nil => exact hne rfl
  | cons ch rest =>
    cases rest with
    | nil =>
      simp only [List.flatMap_cons, List.flatMap_nil, List.append_nil] at hshorter
      by_cases hsize : ch.utf8Size = 1
      · have hascii : ch.val ≤ 127 := Char.utf8Size_eq_one_iff.mp hsize
        have hlt : ch.toNat ≤ 127 := by simpa using UInt32.le_iff_toNat_le.mp hascii
        have hbyte : ch.val.toUInt8.toNat = ch.toNat := by
          rw [UInt32.toNat_toUInt8]
          exact Nat.mod_eq_of_lt (by change ch.toNat < 256; omega)
        rw [String.utf8EncodeChar_eq_singleton hsize] at hshorter
        simp only [hasShorterPush, hbyte, h, Bool.false_or, beq_iff_eq] at hshorter
        have := congrArg UInt8.toNat hshorter
        rw [hbyte] at this
        simp at this
        omega
      · have hlen := String.length_utf8EncodeChar ch
        unfold hasShorterPush at hshorter
        split at hshorter
        · rename_i heq
          exact String.utf8EncodeChar_ne_nil heq
        · rename_i heq
          rw [heq] at hlen
          exact hsize (by simpa using hlen.symm)
        · simp at hshorter
    | cons ch' rest =>
      obtain ⟨b, bs, hb⟩ := List.exists_cons_of_ne_nil (String.utf8EncodeChar_ne_nil (c := ch))
      obtain ⟨b', bs', hb'⟩ := List.exists_cons_of_ne_nil (String.utf8EncodeChar_ne_nil (c := ch'))
      rw [List.flatMap_cons, List.flatMap_cons, hb, hb'] at hshorter
      cases bs <;> simp [hasShorterPush] at hshorter

/-- Every instruction pushes a parameter or has an encoding. -/
def Runnable (code : List Instruction) : Prop :=
  ∀ instruction ∈ code, (∃ name, instruction.kind = .push (.symbol name)) ∨
    ∃ part, encodeInstruction instruction = .ok part

theorem Runnable.nil : Runnable [] := by
  simp [Runnable]

theorem Runnable.append {code rest : List Instruction} (h : Runnable code) (h' : Runnable rest) :
    Runnable (code ++ rest) := by
  intro instruction hmem
  rcases List.mem_append.mp hmem with hmem | hmem
  · exact h instruction hmem
  · exact h' instruction hmem

theorem runnable_emit {span : Span} {kind : InstructionKind}
    (h : ∃ part, encodeInstruction ⟨span, kind⟩ = .ok part) : Runnable (emit span kind) := by
  intro instruction hmem
  rw [emit, List.mem_singleton] at hmem
  exact Or.inr (hmem ▸ h)

/-- What the induction over expressions carries: the expression lowers, the code computes its
meaning, and the meaning has its type. -/
structure Preserved (cx : Context) (file : String) (e : Expr) (ty : Ty) : Prop where
  lowers : ∃ code, lowerExpr file e = .ok code ∧ Runnable code ∧
    Computes cx.env (boundAll cx.value code) (cx.eval e)
  hasTy : ∀ v, cx.eval e = some v → v.HasTy ty

theorem Val.eq_num {v : Val} (h : v.HasTy .num) : ∃ n, v = .num n ∧ NumFits n := by
  cases v with
  | num n => exact ⟨n, rfl, h⟩
  | _ => exact absurd h id

theorem Val.eq_bool {v : Val} (h : v.HasTy .bool) : ∃ b, v = .bool b := by
  cases v with
  | bool b => exact ⟨b, rfl⟩
  | _ => exact absurd h id

theorem Val.eq_bytes {v : Val} (h : v.HasTy .bytes) : ∃ data, v = .bytes data := by
  cases v with
  | bytes data => exact ⟨data, rfl⟩
  | _ => exact absurd h id

/-- A typed value is one stack element. -/
theorem Val.push_hasTy {v : Val} {ty : Ty} (h : v.HasTy ty) :
    ∃ data, ∀ stack, v.push stack = data :: stack := by
  cases v with
  | num n => exact ⟨_, fun _ => rfl⟩
  | bool b => exact ⟨_, fun _ => rfl⟩
  | bytes data => exact ⟨_, fun _ => rfl⟩
  | list items => exact absurd h (by cases ty <;> exact id)

/-- Neither the lowering nor the meaning takes the comparison for a lock. -/
def NoLock (left : Expr) (op : BinaryOp) : Prop :=
  lockClock left op = none ∧ ¬ (op = .greaterEqual ∧ isLockRead left = true)

/-- The paths of fragment operands never spell a lock clock. -/
theorem noLock_fragment {Γ : Declared} {left : Expr} {ty : Ty} (op : BinaryOp)
    (h : Fragment Γ left ty) : NoLock left op := by
  have hpath : (collectPath left).length ≤ 1 ∧ isLockRead left = false := by
    cases h <;> simp [collectPath, isLockRead]
  have hne (path : List String) (hlen : path.length = 2) : isPath left path = false := by
    rw [isPath, beq_eq_false_iff_ne]
    intro heq
    rw [heq, hlen] at hpath
    omega
  constructor
  · rw [lockClock, hne _ rfl, hne _ rfl]
    simp
  · simp [hpath.2]

section

variable {cx : Context} {file : String} {Γ : Declared}

/-- A pair of operands and an opcode. -/
theorem preserved_binary {left right : Expr} {op : BinaryOp} {span : Span} {tyl tyr ty : Ty}
    (hlock : NoLock left op) (hencode : ∃ part, encodeInstruction ⟨span, binaryKind op⟩ = .ok part)
    (hl : Preserved cx file left tyl) (hr : Preserved cx file right tyr)
    (hop : ∀ a b, a.HasTy tyl → b.HasTy tyr → ∀ stack,
      runOpcodes cx.env (opcodes (binaryKind op)) (b.push (a.push stack)) =
        (evalBinary op a b).map fun r => r.push stack)
    (hty : ∀ a b, a.HasTy tyl → b.HasTy tyr → ∀ r, evalBinary op a b = some r → r.HasTy ty) :
    Preserved cx file (.binary left op right span) ty := by
  have heval : cx.eval (.binary left op right span) =
      (cx.eval left).bind fun l => (cx.eval right).bind fun r => evalBinary op l r := by
    rw [Context.eval, if_neg hlock.2]
  constructor
  · obtain ⟨cl, hcl, hrunl, hl'⟩ := hl.lowers
    obtain ⟨cr, hcr, hrunr, hr'⟩ := hr.lowers
    refine ⟨cl ++ cr ++ emit span (binaryKind op), ?_,
      (hrunl.append hrunr).append (runnable_emit hencode), ?_⟩
    · rw [lowerExpr, lowerBinary, lowerSpecialBinary_eq, hlock.1, hcl, hcr]
      rfl
    · have hbound : boundOpcodes cx.value (binaryKind op) = opcodes (binaryKind op) := by
        cases op <;> rfl
      rw [heval, boundAll_append, boundAll_append, boundAll_emit, hbound]
      exact Computes.binary hl' hr' fun a b ha hb => hop a b (hl.hasTy a ha) (hr.hasTy b hb)
  · intro v hv
    rw [heval] at hv
    obtain ⟨a, ha, hv⟩ := Option.bind_eq_some_iff.mp hv
    obtain ⟨b, hb, hv⟩ := Option.bind_eq_some_iff.mp hv
    exact hty a b (hl.hasTy a ha) (hr.hasTy b hb) v hv

theorem preserved_leaf {e : Expr} {ty : Ty} {v : Val} {span : Span} {kind : InstructionKind}
    (hlower : lowerExpr file e = .ok (emit span kind)) (hrunnable : Runnable (emit span kind))
    (heval : cx.eval e = some v) (hv : v.HasTy ty)
    (hrun : ∀ stack, runOpcodes cx.env (boundOpcodes cx.value kind) stack = some (v.push stack)) :
    Preserved cx file e ty := by
  constructor
  · refine ⟨_, hlower, hrunnable, ?_⟩
    intro stack
    rw [boundAll_emit, hrun, heval]
    rfl
  · intro w hw
    rw [heval, Option.some.injEq] at hw
    exact hw ▸ hv

theorem preserved_param {id : Ident} {ty : TypeName} (hvalue : Assigns Γ cx.value)
    (hty : Γ id.name = some ty) (hin : id.name ≠ "input_count") (hout : id.name ≠ "output_count") :
    Preserved cx file (.ident id) ty.ty := by
  have htyped := hvalue id.name ty hty
  obtain ⟨data, hdata⟩ := Val.push_hasTy htyped
  have hlower : lowerExpr file (.ident id) = .ok (emit id.span (.push (.symbol id.name))) := by
    rw [lowerExpr]
    split <;> first | contradiction | rfl
  have heval : cx.eval (.ident id) = some (cx.value id.name) := by
    rw [Context.eval, Context.evalIdent, if_neg hin, if_neg hout]
  have hrunnable : Runnable (emit id.span (.push (.symbol id.name))) := by
    intro instruction hmem
    rw [emit, List.mem_singleton] at hmem
    exact Or.inl ⟨id.name, by rw [hmem]⟩
  refine preserved_leaf hlower hrunnable heval htyped ?_
  intro stack
  simp [boundOpcodes, hdata, runOpcodes, execOpcode]

theorem preserved_count {id : Ident} (htx : Admissible cx.env.populated)
    (hid : id.name = "input_count" ∨ id.name = "output_count") :
    Preserved cx file (.ident id) .num := by
  rcases hid with hid | hid
  · have hfits := numFits_of_le htx.inputCount
    have hlower : lowerExpr file (.ident id) = .ok (emit id.span .inputCount) := by
      simp [lowerExpr, hid]
    refine preserved_leaf (v := .num cx.env.populated.tx.inputs.length) hlower (runnable_emit ⟨_, rfl⟩)
      ?_ hfits ?_
    · simp [Context.eval, Context.evalIdent, hid]
    · intro stack
      simp [boundOpcodes, opcodes, runOpcodes, execOpcode, pushNum, hfits]
  · have hfits := numFits_of_le htx.outputCount
    have hlower : lowerExpr file (.ident id) = .ok (emit id.span .outputCount) := by
      simp [lowerExpr, hid]
    refine preserved_leaf (v := .num cx.env.populated.tx.outputs.length) hlower (runnable_emit ⟨_, rfl⟩)
      ?_ hfits ?_
    · simp [Context.eval, Context.evalIdent, hid]
    · intro stack
      simp [boundOpcodes, opcodes, runOpcodes, execOpcode, pushNum, hfits]

theorem readIndex_encode {α : Type} (xs : List α) {index : Nat} (h : index ≤ u32Max) :
    readIndex xs (encode index) = xs[index]? := by
  have hfits : NumFits index := numFits_of_le (by unfold u32Max at h; unfold i64Max; omega)
  rw [readIndex, readNum_encode hfits]
  simp

/-- A field of an indexed input or output: the index, then the opcode that reads it. -/
theorem preserved_indexed {root field : Ident} {index : Nat} {span span' span'' : Span} {ty : Ty}
    (htx : Admissible cx.env.populated) (hroot : root.name = "input" ∨ root.name = "output")
    (hindex : index ≤ u32Max) (hfield : indexedTy field.name = some ty) :
    Preserved cx file (.field (.call (.ident root) [.integer index span] span') field span'') ty := by
  -- the four readings share their lowering and differ in what the opcode fetches
  have reading (kind : InstructionKind) (op : Opcode) (v : Option Val)
      (hkind : indexedKind root.name field.name index = some kind)
      (hencode : ∃ part, encodeInstruction ⟨span'', kind⟩ = .ok part)
      (hops : boundOpcodes cx.value kind = [.push (encode index), op])
      (heval : cx.evalIndexed root.name field.name index = v)
      (hrun : ∀ stack, execOpcode cx.env op (encode index :: stack) = v.map fun r => r.push stack)
      (hv : ∀ r, v = some r → r.HasTy ty) :
      Preserved cx file
        (.field (.call (.ident root) [.integer index span] span') field span'') ty := by
    have hmeaning : cx.eval
        (.field (.call (.ident root) [.integer index span] span') field span'') = v := by
      rw [Context.eval]
      exact heval
    constructor
    · refine ⟨emit span'' kind, ?_, runnable_emit hencode, ?_⟩
      · simp [lowerExpr, lowerField, indexedObject, hroot, hindex, hkind]
      · intro stack
        rw [hmeaning, boundAll_emit, hops, runOpcodes, run_cons]
        simpa [execOpcode] using hrun stack
    · rw [hmeaning]
      exact hv
  have hindex' : index ≤ i64Max := by
    unfold u32Max at hindex
    unfold i64Max
    omega
  have hamount (entry : UtxoEntry) (h : cx.env.populated.entries[index]? = some entry) :
      NumFits entry.amount := numFits_of_le (htx.entries entry (List.mem_of_getElem? h))
  have hvalue (output : TransactionOutput) (h : cx.env.populated.tx.outputs[index]? = some output) :
      NumFits output.value := numFits_of_le (htx.outputs output (List.mem_of_getElem? h))
  unfold indexedTy at hfield
  split at hfield <;> simp only [Option.some.injEq, reduceCtorEq] at hfield <;> subst hfield <;>
    rename_i hname <;> rcases hroot with hroot | hroot
  · refine reading (.inputValue index) .txInputAmount
      (cx.env.populated.entries[index]?.map fun entry => .num entry.amount) ?_ (encodeU64_then_ok _ hindex')
      ?_ ?_ ?_ ?_
    · simp [indexedKind, hroot, hname]
    · rfl
    · simp [Context.evalIndexed, hroot, hname]
    · intro stack
      simp only [execOpcode, readIndex_encode _ hindex]
      cases h : cx.env.populated.entries[index]? with
      | none => rfl
      | some entry => simp [pushNum, hamount entry h]
    · intro r hr
      obtain ⟨entry, h, rfl⟩ := Option.map_eq_some_iff.mp hr
      exact hamount entry h
  · refine reading (.outputValue index) .txOutputAmount
      (cx.env.populated.tx.outputs[index]?.map fun output => .num output.value) ?_ (encodeU64_then_ok _ hindex')
      ?_ ?_ ?_ ?_
    · simp [indexedKind, hroot, hname]
    · rfl
    · simp [Context.evalIndexed, hroot, hname]
    · intro stack
      simp only [execOpcode, readIndex_encode _ hindex]
      cases h : cx.env.populated.tx.outputs[index]? with
      | none => rfl
      | some output => simp [pushNum, hvalue output h]
    · intro r hr
      obtain ⟨output, h, rfl⟩ := Option.map_eq_some_iff.mp hr
      exact hvalue output h
  · refine reading (.inputScript index) .txInputSpk
      (cx.env.populated.entries[index]?.map fun entry =>
        .bytes (spkBytes entry.scriptPublicKey)) ?_ (encodeU64_then_ok _ hindex')
      ?_ ?_ ?_ ?_
    · simp [indexedKind, hroot, hname]
    · rfl
    · simp [Context.evalIndexed, hroot, hname]
    · intro stack
      simp [execOpcode, readIndex_encode _ hindex, Function.comp_def]
    · intro r hr
      obtain ⟨entry, _, rfl⟩ := Option.map_eq_some_iff.mp hr
      trivial
  · refine reading (.outputScript index) .txOutputSpk
      (cx.env.populated.tx.outputs[index]?.map fun output =>
        .bytes (spkBytes output.scriptPublicKey)) ?_ (encodeU64_then_ok _ hindex')
      ?_ ?_ ?_ ?_
    · simp [indexedKind, hroot, hname]
    · rfl
    · simp [Context.evalIndexed, hroot, hname]
    · intro stack
      simp [execOpcode, readIndex_encode _ hindex, Function.comp_def]
    · intro r hr
      obtain ⟨output, _, rfl⟩ := Option.map_eq_some_iff.mp hr
      trivial

theorem preserved_hash {id : Ident} {arg : Expr} {span : Span} {ty : Ty}
    (hid : id.name = "sha256" ∨ id.name = "blake2b") (harg : Preserved cx file arg ty) :
    Preserved cx file (.call (.ident id) [arg] span) .bytes := by
  obtain ⟨code, hcode, hrunnable, hcomp⟩ := harg.lowers
  have hashing (kind : InstructionKind) (op : Opcode) (hash : Bytes → Bytes)
      (hlower : lowerExpr file (.call (.ident id) [arg] span) = .ok (code ++ emit span kind))
      (hencode : Runnable (emit span kind)) (hops : boundOpcodes cx.value kind = [op])
      (heval : cx.eval (.call (.ident id) [arg] span) = (cx.eval arg).bind (Context.evalHash hash))
      (hrun : ∀ data stack, execOpcode cx.env op (data :: stack) = some (hash data :: stack)) :
      Preserved cx file (.call (.ident id) [arg] span) .bytes := by
    constructor
    · refine ⟨_, hlower, hrunnable.append hencode, ?_⟩
      rw [heval, boundAll_append, boundAll_emit, hops]
      apply hcomp.unary
      intro a ha stack
      obtain ⟨data, hdata⟩ := Val.push_hasTy (harg.hasTy a ha)
      simp [runOpcodes, Context.evalHash, hdata, hrun]
    · intro v hv
      rw [heval] at hv
      obtain ⟨a, ha, hv⟩ := Option.bind_eq_some_iff.mp hv
      obtain ⟨data, hdata⟩ := Val.push_hasTy (harg.hasTy a ha)
      simp only [Context.evalHash, hdata, Option.some.injEq] at hv
      rw [← hv]
      trivial
  rcases hid with hid | hid
  · refine hashing .sha256 .sha256 cx.env.sha256 ?_ (runnable_emit ⟨_, rfl⟩) ?_ ?_ ?_
    · simp [lowerExpr, lowerCall, lowerEach, lowerFirst, joinAll, hid, hcode, pure, Except.pure]
    · rfl
    · simp [Context.eval, Context.evalEach, Context.evalCall, hid]
    · intro data stack
      rfl
  · refine hashing .blake2b .blake2b cx.env.blake2b ?_ (runnable_emit ⟨_, rfl⟩) ?_ ?_ ?_
    · simp [lowerExpr, lowerCall, lowerEach, lowerFirst, joinAll, hid, hcode, pure, Except.pure]
    · rfl
    · simp [Context.eval, Context.evalEach, Context.evalCall, hid]
    · intro data stack
      rfl

theorem preserved_arith {left right : Expr} {op : BinaryOp} {span : Span}
    (hop : op = .add ∨ op = .sub) (hlock : NoLock left op)
    (hl : Preserved cx file left .num) (hr : Preserved cx file right .num) :
    Preserved cx file (.binary left op right span) .num := by
  have hencode : ∃ part, encodeInstruction ⟨span, binaryKind op⟩ = .ok part := by
    rcases hop with rfl | rfl <;> exact ⟨_, rfl⟩
  apply preserved_binary hlock hencode hl hr
  · intro a b ha hb stack
    obtain ⟨n, rfl, hn⟩ := Val.eq_num ha
    obtain ⟨m, rfl, hm⟩ := Val.eq_num hb
    rcases hop with rfl | rfl <;>
      simp only [Val.push_num, binaryKind, opcodes, runOpcodes_numeric hn hm, NumOp.eval,
        evalBinary, pushNum_eq_checked]
  · intro a b ha hb r hr
    obtain ⟨n, rfl, _⟩ := Val.eq_num ha
    obtain ⟨m, rfl, _⟩ := Val.eq_num hb
    rcases hop with rfl | rfl <;>
      · simp only [evalBinary, checked] at hr
        split_ifs at hr with hfits
        rw [Option.some.injEq] at hr
        exact hr ▸ hfits

theorem preserved_ordering {left right : Expr} {op : BinaryOp} {span : Span}
    (hop : isOrdering op) (hlock : NoLock left op)
    (hl : Preserved cx file left .num) (hr : Preserved cx file right .num) :
    Preserved cx file (.binary left op right span) .bool := by
  have hencode : ∃ part, encodeInstruction ⟨span, binaryKind op⟩ = .ok part := by
    cases op <;> first | exact absurd hop (by decide) | exact ⟨_, rfl⟩
  apply preserved_binary hlock hencode hl hr
  · intro a b ha hb stack
    obtain ⟨n, rfl, hn⟩ := Val.eq_num ha
    obtain ⟨m, rfl, hm⟩ := Val.eq_num hb
    cases op <;> first
      | exact absurd hop (by decide)
      | simp only [Val.push_num, binaryKind, opcodes, runOpcodes_numeric hn hm, NumOp.eval,
          evalBinary, pushNum_truth, Option.map_some, Val.push_bool]
  · intro a b ha hb r hr
    obtain ⟨n, rfl, _⟩ := Val.eq_num ha
    obtain ⟨m, rfl, _⟩ := Val.eq_num hb
    cases op <;> first
      | exact absurd hop (by decide)
      | (simp only [evalBinary, Option.some.injEq] at hr; rw [← hr]; trivial)

theorem preserved_equal {left right : Expr} {span : Span} {ty : Ty}
    (hlock : NoLock left .equal)
    (hl : Preserved cx file left ty) (hr : Preserved cx file right ty) :
    Preserved cx file (.binary left .equal right span) .bool := by
  apply preserved_binary hlock ⟨_, rfl⟩ hl hr
  · intro a b ha hb stack
    cases ty with
    | num =>
      obtain ⟨n, rfl, _⟩ := Val.eq_num ha
      obtain ⟨m, rfl, _⟩ := Val.eq_num hb
      -- equality is on bytes, and a number has one encoding
      simp [binaryKind, opcodes, runOpcodes_equal, evalBinary, encode_injective.eq_iff,
        Bool.beq_eq_decide_eq]
    | bool =>
      obtain ⟨x, rfl⟩ := Val.eq_bool ha
      obtain ⟨y, rfl⟩ := Val.eq_bool hb
      simp [binaryKind, opcodes, runOpcodes_equal, evalBinary,
        boolBytes_injective.eq_iff, Bool.beq_eq_decide_eq]
    | bytes =>
      obtain ⟨x, rfl⟩ := Val.eq_bytes ha
      obtain ⟨y, rfl⟩ := Val.eq_bytes hb
      simp [binaryKind, opcodes, runOpcodes_equal, evalBinary, Bool.beq_eq_decide_eq]
  · intro a b ha hb r hr
    cases ty with
    | num =>
      obtain ⟨n, rfl, _⟩ := Val.eq_num ha
      obtain ⟨m, rfl, _⟩ := Val.eq_num hb
      simp only [evalBinary, Option.some.injEq] at hr
      rw [← hr]
      trivial
    | bool =>
      obtain ⟨x, rfl⟩ := Val.eq_bool ha
      obtain ⟨y, rfl⟩ := Val.eq_bool hb
      simp only [evalBinary, Option.some.injEq] at hr
      rw [← hr]
      trivial
    | bytes =>
      obtain ⟨x, rfl⟩ := Val.eq_bytes ha
      obtain ⟨y, rfl⟩ := Val.eq_bytes hb
      simp only [evalBinary, Option.some.injEq] at hr
      rw [← hr]
      trivial

theorem preserved_notEqual {left right : Expr} {span : Span} {ty : Ty} (hne : ty ≠ .bytes)
    (hlock : NoLock left .notEqual)
    (hl : Preserved cx file left ty) (hr : Preserved cx file right ty) :
    Preserved cx file (.binary left .notEqual right span) .bool := by
  apply preserved_binary hlock ⟨_, rfl⟩ hl hr
  · intro a b ha hb stack
    cases ty with
    | num =>
      obtain ⟨n, rfl, hn⟩ := Val.eq_num ha
      obtain ⟨m, rfl, hm⟩ := Val.eq_num hb
      simp only [Val.push_num, binaryKind, opcodes, runOpcodes_numeric hn hm, NumOp.eval,
        evalBinary, pushNum_truth, Option.map_some, Val.push_bool]
    | bool =>
      obtain ⟨x, rfl⟩ := Val.eq_bool ha
      obtain ⟨y, rfl⟩ := Val.eq_bool hb
      simp only [Val.push_bool, binaryKind, opcodes, runOpcodes_logical, NumOp.eval, evalBinary,
        pushNum_truth, Option.map_some]
      cases x <;> cases y <;> rfl
    | bytes => exact absurd rfl hne
  · intro a b ha hb r hr
    cases ty with
    | num =>
      obtain ⟨n, rfl, _⟩ := Val.eq_num ha
      obtain ⟨m, rfl, _⟩ := Val.eq_num hb
      simp only [evalBinary, Option.some.injEq] at hr
      rw [← hr]
      trivial
    | bool =>
      obtain ⟨x, rfl⟩ := Val.eq_bool ha
      obtain ⟨y, rfl⟩ := Val.eq_bool hb
      simp only [evalBinary, Option.some.injEq] at hr
      rw [← hr]
      trivial
    | bytes => exact absurd rfl hne

theorem runOpcodes_and (env : ScriptEnv) (a b : Bool) (stack : Stack) :
    runOpcodes env [.numeric .boolAnd] (boolBytes b :: boolBytes a :: stack) =
      some (boolBytes (a && b) :: stack) := by
  rw [runOpcodes_logical, NumOp.eval, pushNum_truth]
  cases a <;> cases b <;> rfl

theorem runOpcodes_or (env : ScriptEnv) (a b : Bool) (stack : Stack) :
    runOpcodes env [.numeric .boolOr] (boolBytes b :: boolBytes a :: stack) =
      some (boolBytes (a || b) :: stack) := by
  rw [runOpcodes_logical, NumOp.eval, pushNum_truth]
  cases a <;> cases b <;> rfl

theorem preserved_logical {left right : Expr} {op : BinaryOp} {span : Span}
    (hop : op = .and ∨ op = .or) (hlock : NoLock left op)
    (hl : Preserved cx file left .bool) (hr : Preserved cx file right .bool) :
    Preserved cx file (.binary left op right span) .bool := by
  have hencode : ∃ part, encodeInstruction ⟨span, binaryKind op⟩ = .ok part := by
    rcases hop with rfl | rfl <;> exact ⟨_, rfl⟩
  apply preserved_binary hlock hencode hl hr
  · intro a b ha hb stack
    obtain ⟨x, rfl⟩ := Val.eq_bool ha
    obtain ⟨y, rfl⟩ := Val.eq_bool hb
    rcases hop with rfl | rfl
    · exact runOpcodes_and cx.env x y stack
    · exact runOpcodes_or cx.env x y stack
  · intro a b ha hb r hr
    obtain ⟨x, rfl⟩ := Val.eq_bool ha
    obtain ⟨y, rfl⟩ := Val.eq_bool hb
    rcases hop with rfl | rfl <;>
      · simp only [evalBinary, Option.some.injEq] at hr
        rw [← hr]
        trivial

theorem preserved_not {e : Expr} {span : Span} (he : Preserved cx file e .bool) :
    Preserved cx file (.unary .not e span) .bool := by
  constructor
  · obtain ⟨code, hcode, hrunnable, hcomp⟩ := he.lowers
    refine ⟨code ++ emit span .not, ?_, hrunnable.append (runnable_emit ⟨_, rfl⟩), ?_⟩
    · rw [lowerExpr, hcode]
      rfl
    · rw [Context.eval, boundAll_append, boundAll_emit]
      apply hcomp.unary
      intro a ha stack
      obtain ⟨b, rfl⟩ := Val.eq_bool (he.hasTy a ha)
      simp only [boundOpcodes, opcodes, runOpcodes, Library.run_singleton, execOpcode,
        Val.push_bool, readNum_boolBytes, Option.bind_some, pushNum_truth]
      cases b <;> rfl
  · intro v hv
    rw [Context.eval] at hv
    obtain ⟨a, ha, hv⟩ := Option.bind_eq_some_iff.mp hv
    obtain ⟨b, rfl⟩ := Val.eq_bool (he.hasTy a ha)
    simp only [evalUnary, Option.some.injEq] at hv
    rw [← hv]
    trivial

theorem preserved_verify {signature key : Expr} {field : Ident} {span span' : Span}
    (hfield : field.name = "verify") (hs : Preserved cx file signature .bytes)
    (hk : Preserved cx file key .bytes) :
    Preserved cx file (.call (.field signature field span) [key] span') .bool := by
  have heval : cx.eval (.call (.field signature field span) [key] span') =
      (cx.eval signature).bind fun s => (cx.eval key).bind fun k => cx.evalVerify s k := by
    simp only [Context.eval, Context.evalEach, Context.evalCall, hfield, if_true]
    rfl
  constructor
  · obtain ⟨cs, hcs, hruns, hs'⟩ := hs.lowers
    obtain ⟨ck, hck, hrunk, hk'⟩ := hk.lowers
    refine ⟨cs ++ ck ++ emit span' (.checkSig 0), ?_,
      (hruns.append hrunk).append (runnable_emit ⟨_, rfl⟩), ?_⟩
    · simp [lowerExpr, lowerCall, lowerEach, joinAll, hfield, hcs, hck, pure, Except.pure]
    · rw [heval, boundAll_append, boundAll_append, boundAll_emit]
      apply Computes.binary hs' hk'
      intro a b ha hb stack
      obtain ⟨x, rfl⟩ := Val.eq_bytes (hs.hasTy a ha)
      obtain ⟨y, rfl⟩ := Val.eq_bytes (hk.hasTy b hb)
      simp [boundOpcodes, opcodes, runOpcodes, execOpcode, Context.evalVerify]
  · intro v hv
    rw [heval] at hv
    obtain ⟨a, ha, hv⟩ := Option.bind_eq_some_iff.mp hv
    obtain ⟨b, hb, hv⟩ := Option.bind_eq_some_iff.mp hv
    obtain ⟨x, rfl⟩ := Val.eq_bytes (hs.hasTy a ha)
    obtain ⟨y, rfl⟩ := Val.eq_bytes (hk.hasTy b hb)
    simp only [Context.evalVerify, Option.some.injEq] at hv
    rw [← hv]
    trivial

/-- An array leaves its items in order, the last on top. -/
theorem preserved_array {elements : List Expr} (span : Span)
    (ih : ∀ e ∈ elements, Preserved cx file e .bytes) :
    (∃ code, joinAll (lowerEach file elements) = .ok code ∧ Runnable code ∧
      Computes cx.env (boundAll cx.value code) (cx.eval (.array elements span))) ∧
    ∀ v, cx.eval (.array elements span) = some v →
      ∃ items, v = .list items ∧ items.length = elements.length := by
  simp only [Context.eval]
  induction elements with
  | nil =>
    refine ⟨⟨[], rfl, Runnable.nil, fun stack => rfl⟩, ?_⟩
    intro v hv
    simp only [Context.evalEach, Context.evalArray, Option.map_some, Option.some.injEq] at hv
    exact ⟨[], hv.symm, rfl⟩
  | cons e elements ihes =>
    obtain ⟨⟨rest, hrest, hrunrest, hcomp⟩, hlen⟩ := ihes fun e' he' => ih e' (by simp [he'])
    obtain ⟨first, hfirst, hrunfirst, hcomp'⟩ := (ih e (by simp)).lowers
    constructor
    · refine ⟨first ++ rest, joinAll_cons.mpr ⟨first, rest, hfirst, hrest, rfl⟩,
        hrunfirst.append hrunrest, ?_⟩
      rw [boundAll_append]
      intro stack
      rw [runOpcodes, run_append]
      change (runOpcodes cx.env (boundAll cx.value first) stack).bind
        (runOpcodes cx.env (boundAll cx.value rest)) = _
      rw [hcomp' stack, Context.evalEach]
      cases he : cx.eval e with
      | none => rfl
      | some a =>
        obtain ⟨data, rfl⟩ := Val.eq_bytes ((ih e (by simp)).hasTy a he)
        simp only [Option.map_some, Option.bind_some, Val.push_bytes, Context.evalArray]
        rw [hcomp (data :: stack)]
        cases Context.evalArray (cx.evalEach elements) <;> simp
    · intro v hv
      rw [Context.evalEach] at hv
      cases he : cx.eval e with
      | none => simp [he, Context.evalArray] at hv
      | some a =>
        obtain ⟨data, rfl⟩ := Val.eq_bytes ((ih e (by simp)).hasTy a he)
        simp only [he, Context.evalArray, Option.map_map] at hv
        obtain ⟨items, hitems, rfl⟩ := Option.map_eq_some_iff.mp hv
        obtain ⟨items', heq, hlen'⟩ := hlen (.list items) (by rw [hitems]; rfl)
        rw [Val.list.injEq] at heq
        exact ⟨data :: items, rfl, by simp [heq, hlen']⟩

theorem eval_multisig {id : Ident} {threshold : Nat} {keys signatures : Expr}
    {span span' : Span} (hid : id.name = "multisig") :
    cx.eval (.call (.ident id) [.integer threshold span, keys, signatures] span') =
      (cx.eval signatures).bind fun s => (cx.eval keys).bind fun k =>
        cx.evalMultisig threshold k s := by
  simp only [Context.eval, Context.evalEach, Context.evalCall, hid]
  rfl

/-- Signatures, the threshold, the keys, and the opcode that takes them off again. -/
theorem preserved_multisig {id : Ident} {threshold : Nat} {keys signatures : List Expr}
    {span span' spanKeys spanSigs : Span} (hid : id.name = "multisig")
    (hthreshold : threshold = signatures.length) (hle : signatures.length ≤ keys.length)
    (hmax : keys.length ≤ u32Max) (hk : ∀ key ∈ keys, Preserved cx file key .bytes)
    (hs : ∀ signature ∈ signatures, Preserved cx file signature .bytes) :
    Preserved cx file (.call (.ident id)
      [.integer threshold span, .array keys spanKeys, .array signatures spanSigs] span') .bool := by
  obtain ⟨⟨ck, hck, hrunk, hck'⟩, hklen⟩ := preserved_array spanKeys hk
  obtain ⟨⟨cs, hcs, hruns, hcs'⟩, hslen⟩ := preserved_array spanSigs hs
  have hcount : multisigKeyCount
      [.integer threshold span, .array keys spanKeys, .array signatures spanSigs] = keys.length := by
    unfold u32Max at hmax
    exact Nat.mod_eq_of_lt (by omega)
  have hmax' : keys.length ≤ i64Max := by
    unfold u32Max at hmax
    unfold i64Max
    omega
  have hpush : Computes cx.env (boundAll cx.value (emit span' (.push (.integer threshold))))
      (some (.num threshold)) := by
    rw [boundAll_emit]
    exact Computes.push fun _ => rfl
  constructor
  · refine ⟨cs ++ emit span' (.push (.integer threshold)) ++ ck ++
      emit span' (.checkMultiSig threshold keys.length), ?_, ?_, ?_⟩
    · have hk' : lowerExpr file (.array keys spanKeys) = .ok ck := by rw [lowerExpr, hck]
      have hs' : lowerExpr file (.array signatures spanSigs) = .ok cs := by rw [lowerExpr, hcs]
      rw [lowerExpr]
      · simp only [lowerCall, hid, lowerMultisig, List.head?_cons, lowerEach, hcount]
        rw [if_pos (by omega)]
        simp [joinAll, hk', hs', pure, Except.pure]
      · simp
    · have hpush : Runnable (emit span' (.push (.integer threshold))) :=
        runnable_emit (encodeU64_ok span' (by omega))
      have hcheck : Runnable (emit span' (.checkMultiSig threshold keys.length)) :=
        runnable_emit (encodeU64_then_ok [opCheckMultiSig] hmax')
      exact ((hruns.append hpush).append hrunk).append hcheck
    · intro stack
      rw [eval_multisig hid]
      simp only [boundAll_append, List.append_assoc]
      rw [runOpcodes, run_append]
      change (runOpcodes cx.env (boundAll cx.value cs) stack).bind _ = _
      rw [hcs' stack]
      cases hsig : cx.eval (.array signatures spanSigs) with
      | none => rfl
      | some vs =>
        obtain ⟨ss, rfl, hsslen⟩ := hslen vs hsig
        simp only [Option.map_some, Option.bind_some, Val.push_list]
        rw [run_append]
        change (runOpcodes cx.env _ _).bind _ = _
        rw [hpush]
        simp only [Option.map_some, Option.bind_some, Val.push_num]
        rw [run_append]
        change (runOpcodes cx.env (boundAll cx.value ck) _).bind _ = _
        rw [hck']
        cases hkey : cx.eval (.array keys spanKeys) with
        | none => rfl
        | some vk =>
          obtain ⟨ks, rfl, hkslen⟩ := hklen vk hkey
          have hexec : execCheckMultiSig cx.env (encode ks.length :: (ks.reverse ++
              (encode ss.length :: (ss.reverse ++ stack)))) = _ :=
            execCheckMultiSig_append (by omega) (by omega) stack
          simp only [Option.map_some, Option.bind_some, Val.push_list, boundAll_emit, boundOpcodes,
            opcodes, Library.run_cons, execOpcode, Library.run_nil]
          rw [hthreshold, ← hsslen, ← hkslen, hexec]
          simp only [Option.bind_some, Context.evalMultisig, if_true, Option.map_some,
            Val.push_bool, Library.run_nil, matchInOrder_eq]
  · intro v hv
    rw [eval_multisig hid] at hv
    obtain ⟨vs, hvs, hv⟩ := Option.bind_eq_some_iff.mp hv
    obtain ⟨vk, hvk, hv⟩ := Option.bind_eq_some_iff.mp hv
    obtain ⟨ss, rfl, _⟩ := hslen vs hvs
    obtain ⟨ks, rfl, _⟩ := hklen vk hvk
    simp only [Context.evalMultisig] at hv
    split_ifs at hv
    rw [Option.some.injEq] at hv
    rw [← hv]
    trivial

theorem outputCallIndex_eq {root : Ident} {index : Nat} {span span' : Span}
    (hroot : root.name = "output") (hindex : index ≤ u32Max) :
    Checker.outputCallIndex (.call (.ident root) [.integer index span] span') = some index := by
  simp [Checker.outputCallIndex, hroot, hindex]

theorem eval_continuation {id root : Ident} {name : Expr} {index : Nat}
    {span span' span'' : Span} (hid : id.name = "continuation") (hroot : root.name = "output")
    (hindex : index ≤ u32Max) :
    cx.eval (.call (.ident id) [name, .call (.ident root) [.integer index span] span'] span'') =
      some (.bool (decide (index < cx.env.populated.tx.outputs.length))) := by
  simp [Context.eval, Context.evalCall, hid, Context.evalContinuation,
    outputCallIndex_eq hroot hindex]

theorem preserved_continuation {id root : Ident} {name : Expr} {index : Nat}
    {span span' span'' : Span} (hid : id.name = "continuation") (hroot : root.name = "output")
    (hindex : index ≤ u32Max) (houtputs : cx.env.populated.tx.outputs.length ≤ i64Max) :
    Preserved cx file
      (.call (.ident id) [name, .call (.ident root) [.integer index span] span'] span'') .bool := by
  have houtput := @outputCallIndex_eq root index span span' hroot hindex
  have heval := @eval_continuation cx id root name index span span' span'' hid hroot hindex
  have hcount := numFits_of_le houtputs
  have hindex' : index ≤ i64Max := by
    unfold u32Max at hindex
    unfold i64Max
    omega
  have hfits : NumFits index := numFits_of_le hindex'
  constructor
  · refine ⟨emit span'' .outputCount ++ emit span'' (.push (.integer index)) ++
      emit span'' .greaterThan, ?_, ?_, ?_⟩
    · simp [lowerExpr, lowerCall, hid, lowerContinuation, houtput]
    · have hpush : Runnable (emit span'' (.push (.integer index))) :=
        runnable_emit (encodeU64_ok span'' hindex')
      exact ((runnable_emit ⟨_, rfl⟩).append hpush).append (runnable_emit ⟨_, rfl⟩)
    · intro stack
      rw [heval]
      simp only [boundAll_append, boundAll_emit, boundOpcodes, opcodes, pushOpcode,
        List.cons_append, List.nil_append, runOpcodes, run_cons, Library.run_nil, execOpcode,
        pushNum, hcount, if_true, Option.bind_some, readNum_encode hcount, readNum_encode hfits,
        NumOp.eval]
      change (pushNum (truth _) stack).bind _ = _
      rw [pushNum_truth]
      simp
  · intro v hv
    rw [heval, Option.some.injEq] at hv
    rw [← hv]
    trivial

/-- Every expression of the fragment computes its meaning, on any stack. -/
theorem preserved_fragment (hvalue : Assigns Γ cx.value) (htx : Admissible cx.env.populated)
    {e : Expr} {ty : Ty} (h : Fragment Γ e ty) : Preserved cx file e ty := by
  induction h with
  | param hty hin hout => exact preserved_param hvalue hty hin hout
  | count hid => exact preserved_count htx hid
  | @integer value span hvalue =>
    have hlower : lowerExpr file (.integer value span) = .ok (emit span (.push (.integer value))) :=
      by rw [lowerExpr]
    have hrunnable : Runnable (emit span (.push (.integer value))) :=
      runnable_emit (encodeU64_ok span hvalue)
    refine preserved_leaf (v := .num value) hlower hrunnable (by rw [Context.eval])
      (numFits_of_le hvalue) ?_
    intro stack
    simp [boundOpcodes, opcodes, pushOpcode, runOpcodes, execOpcode]
  | @string value span htext hlen =>
    have hlower : lowerExpr file (.string value span) = .ok (emit span (.push (.string value))) :=
      by rw [lowerExpr]
    have hrunnable : Runnable (emit span (.push (.string value))) :=
      runnable_emit (encodeData_ok span hlen)
    refine preserved_leaf (v := .bytes (utf8Bytes value)) hlower hrunnable
      (by rw [Context.eval]) trivial ?_
    intro stack
    simp [boundOpcodes, opcodes, pushOpcode, dataPush_utf8Bytes htext, runOpcodes, execOpcode]
  | @bool value span =>
    have hlower : lowerExpr file (.bool value span) = .ok (emit span (.push (.bool value))) := by
      rw [lowerExpr]
    refine preserved_leaf (v := .bool value) hlower (runnable_emit ⟨_, rfl⟩) (by rw [Context.eval])
      trivial ?_
    intro stack
    simp [boundOpcodes, opcodes, pushOpcode, runOpcodes, execOpcode]
  | indexed hroot hindex hfield => exact preserved_indexed htx hroot hindex hfield
  | hash hid _ ih => exact preserved_hash hid ih
  | arith hop hl _ ihl ihr => exact preserved_arith hop (noLock_fragment _ hl) ihl ihr
  | ordering hop hl _ ihl ihr => exact preserved_ordering hop (noLock_fragment _ hl) ihl ihr
  | equal hl _ ihl ihr => exact preserved_equal (noLock_fragment _ hl) ihl ihr
  | notEqual hne hl _ ihl ihr => exact preserved_notEqual hne (noLock_fragment _ hl) ihl ihr
  | logical hop hl _ ihl ihr => exact preserved_logical hop (noLock_fragment _ hl) ihl ihr
  | not _ ih => exact preserved_not ih
  | verify hfield _ _ ihs ihk => exact preserved_verify hfield ihs ihk
  | multisig hid _ hthreshold hle hmax _ _ ihk ihs =>
    exact preserved_multisig hid hthreshold hle hmax ihk ihs
  | continuation hid hroot hindex => exact preserved_continuation hid hroot hindex htx.outputCount

end

end KaspaScript
