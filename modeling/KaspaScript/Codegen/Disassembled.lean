import KaspaScript.Codegen.Compile
import KaspaScript.Codegen.Disassemble
import KaspaScript.Engine.Encoding

namespace KaspaScript

open Library (bind_eq_ok pure_eq_ok map_eq_ok joinAll joinAll_cons)
open Library.ScriptNum (encode unsigned)

/-- One item of bytecode: a push with its data, a small number, or an opcode with a name. -/
inductive Item where
  | zero
  | direct (data : Bytes) (hpos : 1 ≤ data.length) (hlen : data.length ≤ 0x4b)
  | pushData1 (data : Bytes) (hlen : data.length < 256 ^ 1)
  | pushData2 (data : Bytes) (hlen : data.length < 256 ^ 2)
  | pushData4 (data : Bytes) (hlen : data.length < 256 ^ 4)
  | negate
  | small (n : Nat) (hpos : 1 ≤ n) (hn : n ≤ 16)
  | named (opcode : UInt8) (name : String) (hname : opcodeName opcode.toNat = some name)

namespace Item

def bytes : Item → Bytes
  | .zero => [0x00]
  | .direct data _ _ => UInt8.ofNat data.length :: data
  | .pushData1 data _ => 0x4c :: leBytes 1 data.length ++ data
  | .pushData2 data _ => 0x4d :: leBytes 2 data.length ++ data
  | .pushData4 data _ => 0x4e :: leBytes 4 data.length ++ data
  | .negate => [0x4f]
  | .small n _ _ => [UInt8.ofNat (0x50 + n)]
  | .named opcode _ _ => [opcode]

def text : Item → String
  | .zero => "OP_0"
  | .direct data _ _ => "OP_DATA_" ++ toString data.length ++ " 0x" ++ bytecodeHex data
  | .pushData1 data _ => "OP_PUSHDATA1 0x" ++ bytecodeHex data
  | .pushData2 data _ => "OP_PUSHDATA2 0x" ++ bytecodeHex data
  | .pushData4 data _ => "OP_PUSHDATA4 0x" ++ bytecodeHex data
  | .negate => "OP_1NEGATE"
  | .small n _ _ => "OP_" ++ toString n
  | .named _ name _ => name

end Item

/-- The opcodes with a name all lie above the pushes and the small numbers. -/
theorem opcodeName_high {opcode : Nat} {name : String} (h : opcodeName opcode = some name) :
    0x61 ≤ opcode := by
  by_contra hlow
  have hnone : ∀ low < 0x61, opcodeName low = none := by decide
  rw [hnone opcode (by omega)] at h
  cases h

theorem readPushData_append (before data rest : Bytes) :
    readPushData (before ++ data ++ rest) before.length data.length =
      .ok (data, before.length + data.length) := by
  have hfits : ¬ before.length + data.length > (before ++ data ++ rest).length := by
    simp only [List.length_append]
    omega
  rw [readPushData, if_neg hfits, List.append_assoc, List.drop_left, List.take_left]

theorem readLen_append {width n : Nat} (hn : n < 256 ^ width) (message : String)
    (before rest : Bytes) :
    readLen width message (before ++ leBytes width n ++ rest) before.length =
      .ok (n, before.length + width) := by
  have hlen := leBytes_length width n
  have hfits : ¬ (before ++ leBytes width n ++ rest).length - before.length < width := by
    simp only [List.length_append]
    omega
  have htake : ((before ++ leBytes width n ++ rest).drop before.length).take width =
      leBytes width n := by
    rw [List.append_assoc, List.drop_left, List.take_left' hlen]
  simp only [readLen, if_neg hfits, htake, unsigned_leBytes width n hn]

/-- A push whose data begins at the offset. -/
theorem pushed_append (label : String) (before data rest : Bytes) :
    (do let (data, offset) ← readPushData (before ++ data ++ rest) before.length data.length
        pure (label ++ " 0x" ++ bytecodeHex data, offset)) =
      (.ok (label ++ " 0x" ++ bytecodeHex data, (before ++ data).length) :
        Except CodegenError (String × Nat)) := by
  rw [readPushData_append, List.length_append]
  rfl

/-- A push whose length, of `width` bytes, begins at the offset. -/
theorem pushedLen_append {width : Nat} {data : Bytes} (hlen : data.length < 256 ^ width)
    (message label : String) (before rest : Bytes) :
    (do let read ← readLen width message (before ++ (leBytes width data.length ++ data) ++ rest)
          before.length
        let (data, offset) ← readPushData (before ++ (leBytes width data.length ++ data) ++ rest)
          read.2 read.1
        pure (label ++ " 0x" ++ bytecodeHex data, offset)) =
      (.ok (label ++ " 0x" ++ bytecodeHex data,
        (before ++ (leBytes width data.length ++ data)).length) :
        Except CodegenError (String × Nat)) := by
  have hwidth : (before ++ leBytes width data.length).length = before.length + width := by
    rw [List.length_append, leBytes_length]
  have hregroup : before ++ (leBytes width data.length ++ data) =
      before ++ leBytes width data.length ++ data := by rw [List.append_assoc]
  have hread : readLen width message (before ++ (leBytes width data.length ++ data) ++ rest)
      before.length = .ok (data.length, before.length + width) := by
    rw [hregroup, List.append_assoc (before ++ leBytes width data.length)]
    exact readLen_append hlen message before (data ++ rest)
  rw [hread, Library.ok_bind, hregroup, ← hwidth]
  exact pushed_append label (before ++ leBytes width data.length) data rest

/-- The disassembler reads an item where it stands. -/
theorem disassembleItem_item (item : Item) (before rest : Bytes) :
    ∃ opcode tail, item.bytes = opcode :: tail ∧
      disassembleItem (before ++ item.bytes ++ rest) opcode (before.length + 1) =
        .ok (item.text, (before ++ item.bytes).length) := by
  have hsplit : ∀ (opcode : UInt8) tail,
      before ++ (opcode :: tail) ++ rest = (before ++ [opcode]) ++ tail ++ rest := by simp
  have hlength : ∀ opcode : UInt8, before.length + 1 = (before ++ [opcode]).length := by simp
  have hwhole : ∀ (opcode : UInt8) tail,
      (before ++ (opcode :: tail)).length = ((before ++ [opcode]) ++ tail).length := by simp
  cases item with
  | zero => exact ⟨_, _, rfl, by simp [disassembleItem, Item.bytes, Item.text]⟩
  | negate => exact ⟨_, _, rfl, by simp [disassembleItem, Item.bytes, Item.text]⟩
  | small n hpos hn =>
    refine ⟨_, _, rfl, ?_⟩
    have hvalue : (UInt8.ofNat (0x50 + n)).toNat = 0x50 + n :=
      Library.ScriptNum.toNat_ofNat (by omega)
    simp only [disassembleItem, hvalue]
    rw [if_neg (by omega), if_neg (by omega), if_neg (by omega), if_neg (by omega),
      if_neg (by omega), if_neg (by omega), if_pos (by omega), Nat.add_sub_cancel_left]
    simp [Item.bytes, Item.text]
  | named opcode name hname =>
    refine ⟨_, _, rfl, ?_⟩
    have hhigh := opcodeName_high hname
    simp only [disassembleItem, hname]
    rw [if_neg (by omega), if_neg (by omega), if_neg (by omega), if_neg (by omega),
      if_neg (by omega), if_neg (by omega), if_neg (by omega)]
    simp [Item.bytes, Item.text]
  | direct data hpos hlen =>
    refine ⟨_, _, rfl, ?_⟩
    have hvalue : (UInt8.ofNat data.length).toNat = data.length :=
      Library.ScriptNum.toNat_ofNat (by omega)
    simp only [disassembleItem, hvalue]
    rw [if_neg (by omega), if_pos hlen, Item.bytes, hsplit, hwhole, hlength]
    exact pushed_append _ _ data rest
  | pushData1 data hlen =>
    refine ⟨_, _, rfl, ?_⟩
    rw [Item.bytes, List.cons_append, hsplit, hwhole, hlength]
    exact pushedLen_append hlen _ _ _ rest
  | pushData2 data hlen =>
    refine ⟨_, _, rfl, ?_⟩
    rw [Item.bytes, List.cons_append, hsplit, hwhole, hlength]
    exact pushedLen_append hlen _ _ _ rest
  | pushData4 data hlen =>
    refine ⟨_, _, rfl, ?_⟩
    rw [Item.bytes, List.cons_append, hsplit, hwhole, hlength]
    exact pushedLen_append hlen _ _ _ rest

theorem disassembleFrom_items (items : List Item) (before : Bytes) {fuel : Nat}
    (hfuel : items.length ≤ fuel) :
    disassembleFrom (before ++ items.flatMap Item.bytes) fuel before.length =
      .ok (items.map Item.text) := by
  induction items generalizing before fuel with
  | nil => cases fuel <;> simp [disassembleFrom]
  | cons item rest ih =>
    cases fuel with
    | zero => simp at hfuel
    | succ fuel =>
      obtain ⟨opcode, tail, hbytes, hread⟩ :=
        disassembleItem_item item before (rest.flatMap Item.bytes)
      have hhead : (before ++ (item :: rest).flatMap Item.bytes)[before.length]? =
          some opcode := by
        rw [List.flatMap_cons, hbytes, List.getElem?_append_right (Nat.le_refl _)]
        simp
      have hregroup : before ++ (item :: rest).flatMap Item.bytes =
          before ++ item.bytes ++ rest.flatMap Item.bytes := by
        rw [List.flatMap_cons, List.append_assoc]
      have hless : rest.length ≤ fuel := by simpa using hfuel
      have hrest := ih (before ++ item.bytes) hless
      simp only [disassembleFrom, hhead]
      rw [hregroup, hread, Library.ok_bind]
      simp only [hrest]
      rfl

theorem length_le_bytes (items : List Item) :
    items.length ≤ (items.flatMap Item.bytes).length := by
  induction items with
  | nil => simp
  | cons item rest ih =>
    have hpos : 1 ≤ item.bytes.length := by cases item <;> simp [Item.bytes]
    rw [List.flatMap_cons, List.length_append, List.length_cons]
    omega

/-- Bytes made of items are disassembled to the texts of the items. -/
theorem disassemble_items (items : List Item) :
    disassemble (items.flatMap Item.bytes) = .ok (items.map Item.text) :=
  disassembleFrom_items items [] (length_le_bytes items)

/-! What the encoder emits for an instruction, as the disassembler shows it. -/

def dataAsm (data : Bytes) : String :=
  if data = [] then "OP_0"
  else if data.length ≤ 75 then
    "OP_DATA_" ++ toString data.length ++ " 0x" ++ bytecodeHex data
  else if data.length ≤ 255 then "OP_PUSHDATA1 0x" ++ bytecodeHex data
  else if data.length ≤ 65535 then "OP_PUSHDATA2 0x" ++ bytecodeHex data
  else "OP_PUSHDATA4 0x" ++ bytecodeHex data

def numberAsm (n : Nat) : String :=
  if n = 0 then "OP_0" else if n ≤ 16 then "OP_" ++ toString n else dataAsm (encode n)

def pushAsm : Value → String
  | .integer n => numberAsm n
  | .bool b => if b then "OP_1" else "OP_0"
  | .bytes data => dataAsm data
  | .string text => dataAsm (utf8Bytes text)
  | .symbol name => dataAsm (utf8Bytes name)
  | .type ty => dataAsm (utf8Bytes ty.debug)

/-- The entries of one instruction; the refused ones have none. -/
def instructionAsm : InstructionKind → List String
  | .push value => [pushAsm value]
  | .drop => ["OP_DROP"]
  | .dup => ["OP_DUP"]
  | .inputValue index => [numberAsm index, "OP_TXINPUTAMOUNT"]
  | .inputScript index => [numberAsm index, "OP_TXINPUTSPK"]
  | .outputValue index => [numberAsm index, "OP_TXOUTPUTAMOUNT"]
  | .outputScript index => [numberAsm index, "OP_TXOUTPUTSPK"]
  | .outputCount => ["OP_TXOUTPUTCOUNT"]
  | .inputCount => ["OP_TXINPUTCOUNT"]
  | .checkSig _ => ["OP_CHECKSIG"]
  | .checkMultiSig _ keyCount => [numberAsm keyCount, "OP_CHECKMULTISIG"]
  | .checkLockHeight bound | .checkLockTime bound =>
      [numberAsm bound, "OP_CHECKLOCKTIMEVERIFY", "OP_1"]
  | .checkLockHeightFromStack | .checkLockTimeFromStack => ["OP_CHECKLOCKTIMEVERIFY", "OP_1"]
  | .sha256 => ["OP_SHA256"]
  | .blake2b => ["OP_BLAKE2B"]
  | .verify => ["OP_VERIFY"]
  | .equal => ["OP_EQUAL"]
  | .notEqual => ["OP_NUMNOTEQUAL"]
  | .greaterThan => ["OP_GREATERTHAN"]
  | .greaterThanOrEqual => ["OP_GREATERTHANOREQUAL"]
  | .lessThan => ["OP_LESSTHAN"]
  | .lessThanOrEqual => ["OP_LESSTHANOREQUAL"]
  | .and => ["OP_BOOLAND"]
  | .or => ["OP_BOOLOR"]
  | .not => ["OP_NOT"]
  | .add => ["OP_ADD"]
  | .sub => ["OP_SUB"]
  | .covenantDepth | .covenantId | .zkVerifyGroth16 | .zkVerifyRiscZero | .sequencingCommitment
  | .hash160 | .checkHashPreimage | .mul | .div | .mod => []

/-- The bytes are items that are shown as the texts. -/
def Shows (code : Bytes) (asm : List String) : Prop :=
  ∃ items : List Item, items.flatMap Item.bytes = code ∧ items.map Item.text = asm

namespace Shows

theorem nil : Shows [] [] := ⟨[], rfl, rfl⟩

theorem append {code code' : Bytes} {asm asm' : List String} (h : Shows code asm)
    (h' : Shows code' asm') : Shows (code ++ code') (asm ++ asm') := by
  obtain ⟨items, rfl, rfl⟩ := h
  obtain ⟨items', rfl, rfl⟩ := h'
  exact ⟨items ++ items', by rw [List.flatMap_append], by rw [List.map_append]⟩

theorem single (item : Item) : Shows item.bytes [item.text] :=
  ⟨[item], by simp, rfl⟩

theorem opcode {opcode : UInt8} {name : String} (h : opcodeName opcode.toNat = some name) :
    Shows [opcode] [name] :=
  single (.named opcode name h)

theorem op1 : Shows [op1] ["OP_1"] := single (.small 1 (by decide) (by decide))

theorem disassemble_eq {code : Bytes} {asm : List String} (h : Shows code asm) :
    disassemble code = .ok asm := by
  obtain ⟨items, rfl, rfl⟩ := h
  exact disassemble_items items

end Shows

theorem shows_data {data code : Bytes} {span : Span} (h : encodeData data span = .ok code) :
    Shows code [dataAsm data] := by
  unfold encodeData at h
  simp only at h
  unfold dataAsm
  split_ifs at h with hshort hone htwo hfour
  · rw [Except.ok.injEq] at h
    subst h
    by_cases hnil : data = []
    · subst hnil
      exact Shows.single .zero
    · rw [if_neg hnil, if_pos hshort]
      have hpos : 1 ≤ data.length := List.length_pos_iff.mpr hnil
      exact Shows.single (.direct data hpos hshort)
  all_goals
    rw [Except.ok.injEq] at h
    subst h
    have hnil : data ≠ [] := by
      intro heq
      rw [heq] at hshort
      exact hshort (Nat.zero_le _)
    rw [if_neg hnil, if_neg hshort]
  · rw [if_pos hone]
    have hcode : opPushData1 :: UInt8.ofNat data.length :: data =
        (Item.pushData1 data (by omega)).bytes := by
      simp [Item.bytes, leBytes, opPushData1, Nat.mod_eq_of_lt (show data.length < 256 by omega)]
    rw [hcode]
    exact Shows.single _
  · rw [if_neg hone, if_pos htwo]
    exact Shows.single (.pushData2 data (by omega))
  · rw [if_neg hone, if_neg htwo]
    exact Shows.single (.pushData4 data (by unfold u32Max at hfour; omega))

theorem shows_u64 {n : Nat} {span : Span} {code : Bytes} (h : encodeU64 n span = .ok code) :
    Shows code [numberAsm n] := by
  unfold encodeU64 at h
  unfold numberAsm
  split_ifs at h with hmax hzero hsmall
  · rw [Except.ok.injEq] at h
    subst h
    rw [if_pos hzero]
    exact Shows.single .zero
  · rw [Except.ok.injEq] at h
    subst h
    rw [if_neg hzero, if_pos hsmall]
    have hbyte : op1 + UInt8.ofNat n - 1 = UInt8.ofNat (0x50 + n) := by
      interval_cases n <;> rfl
    rw [hbyte]
    exact Shows.single (.small n (by omega) hsmall)
  · rw [scriptNumber_eq (by omega) (by omega)] at h
    rw [if_neg hzero, if_neg hsmall]
    exact shows_data h

theorem shows_push {value : Value} {span : Span} {code : Bytes}
    (h : encodePush value span = .ok code) : Shows code [pushAsm value] := by
  cases value with
  | integer n => exact shows_u64 h
  | bool b =>
    rw [encodePush, Except.ok.injEq] at h
    subst h
    cases b
    · exact Shows.single .zero
    · exact Shows.op1
  | bytes data => exact shows_data h
  | string text => exact shows_data h
  | symbol name => exact shows_data h
  | type ty => exact shows_data h

/-- A number followed by opcodes. -/
theorem shows_u64_then {n : Nat} {span : Span} {code tail : Bytes} {asm : List String}
    (htail : Shows tail asm)
    (h : (do let bytes ← encodeU64 n span
             pure (bytes ++ tail)) = .ok code) : Shows code (numberAsm n :: asm) := by
  simp only [bind_eq_ok, pure_eq_ok] at h
  obtain ⟨bytes, hbytes, rfl⟩ := h
  exact (shows_u64 hbytes).append htail

theorem shows_lock : Shows [opCheckLockTimeVerify, op1] ["OP_CHECKLOCKTIMEVERIFY", "OP_1"] :=
  have hlock : Shows [opCheckLockTimeVerify] ["OP_CHECKLOCKTIMEVERIFY"] := Shows.opcode rfl
  hlock.append Shows.op1

/-- The bytes of an instruction are shown as its entries. -/
theorem shows_instruction {instruction : Instruction} {code : Bytes}
    (h : encodeInstruction instruction = .ok code) :
    Shows code (instructionAsm instruction.kind) := by
  obtain ⟨span, kind⟩ := instruction
  cases kind with
  | push value => exact shows_push h
  | inputValue index | inputScript index | outputValue index | outputScript index =>
    exact shows_u64_then (Shows.opcode rfl) h
  | checkMultiSig required keyCount => exact shows_u64_then (Shows.opcode rfl) h
  | checkLockHeight bound | checkLockTime bound => exact shows_u64_then shows_lock h
  | checkLockHeightFromStack | checkLockTimeFromStack =>
    rw [encodeInstruction, Except.ok.injEq] at h
    subst h
    exact shows_lock
  | covenantDepth | covenantId | zkVerifyGroth16 | zkVerifyRiscZero | sequencingCommitment
  | hash160 | checkHashPreimage | mul | div | mod => cases h
  | _ =>
    simp only [encodeInstruction, Except.ok.injEq] at h
    subst h
    exact Shows.opcode rfl

theorem shows_sequence {instructions : List Instruction} {code : Bytes}
    (h : compileInstructionSequence instructions = .ok code) :
    Shows code (instructions.flatMap fun instruction => instructionAsm instruction.kind) := by
  unfold compileInstructionSequence at h
  induction instructions generalizing code with
  | nil =>
    rw [List.map_nil, Library.joinAll_nil, Except.ok.injEq] at h
    subst h
    exact Shows.nil
  | cons instruction rest ih =>
    rw [List.map_cons, joinAll_cons] at h
    obtain ⟨first, others, hfirst, hothers, rfl⟩ := h
    rw [List.flatMap_cons]
    exact (shows_instruction hfirst).append (ih hothers)

/-- What the encoder emits is disassembled to the entries of its instructions, so that a compiled
artifact fails to verify only when it has no bytecode. -/
theorem disassemble_compiled :
    (∀ instructions bytecode, compileInstructionSequence instructions = .ok bytecode →
      disassemble bytecode =
        .ok (instructions.flatMap fun instruction => instructionAsm instruction.kind)) ∧
    ∀ sha256 source ir version target artifact,
      compileToccata sha256 source ir version target = .ok artifact →
      ∀ error, verifyArtifact artifact = .error error →
        artifact.bytecode = [] ∧ error = .emptyBytecode := by
  refine ⟨fun instructions bytecode h => (shows_sequence h).disassemble_eq, ?_⟩
  intro sha256 source ir version target artifact hcompile error herror
  obtain ⟨_, _, hcode, _⟩ := compileToccata_eq_ok hcompile
  have hasm := (shows_sequence hcode).disassemble_eq
  by_cases hempty : artifact.bytecode = []
  · rw [verifyArtifact, if_pos hempty] at herror
    exact ⟨hempty, (Except.error.inj herror).symm⟩
  · rw [verifyArtifact, if_neg hempty, hasm] at herror
    cases herror

end KaspaScript
