import KaspaScript.Codegen.Disassembled
import KaspaScript.Engine.Canonical
import Mathlib.Data.List.Nodup

namespace KaspaScript

open Library (bind_eq_ok pure_eq_ok map_eq_ok)
open Library.ScriptNum (unsigned)

/-! The disassembler with the indexing of the source, which panics outside the slice. -/

/-- A computation that may panic: `none` is the panic. -/
abbrev Indexed := ExceptT CodegenError Option

namespace Indexed

/-- The computation does not panic, and does what the other one does. -/
def Total {α : Type} (x : Indexed α) (y : Except CodegenError α) : Prop := x.run = some y

/-- `bytecode[index]` -/
def byteAt (bytecode : Bytes) (index : Nat) : Indexed UInt8 := ExceptT.lift bytecode[index]?

/-- `&bytecode[start..stop]` -/
def sliceAt (bytecode : Bytes) (start stop : Nat) : Indexed Bytes :=
  ExceptT.lift (if start ≤ stop ∧ stop ≤ bytecode.length then
    some ((bytecode.drop start).take (stop - start)) else none)

def readPushData (bytecode : Bytes) (offset len : Nat) : Indexed (Bytes × Nat) := do
  let stop := offset + len
  if stop > bytecode.length then
    throw (.invalidBytecode offset "push data exceeds bytecode length")
  let data ← sliceAt bytecode offset stop
  pure (data, stop)

def readLen (width : Nat) (message : String) (bytecode : Bytes) (offset : Nat) :
    Indexed (Nat × Nat) := do
  if bytecode.length - offset < width then throw (.invalidBytecode offset message)
  let bytes ← (List.range width).mapM fun i => byteAt bytecode (offset + i)
  pure (unsigned bytes, offset + width)

def readLenU8 : Bytes → Nat → Indexed (Nat × Nat) := readLen 1 "missing OP_PUSHDATA1 length"

def readLenU16 : Bytes → Nat → Indexed (Nat × Nat) := readLen 2 "missing OP_PUSHDATA2 length"

def readLenU32 : Bytes → Nat → Indexed (Nat × Nat) := readLen 4 "missing OP_PUSHDATA4 length"

def disassembleItem (bytecode : Bytes) (opcode : UInt8) (offset : Nat) :
    Indexed (String × Nat) :=
  let pushed (label : String) (read : Nat × Nat) : Indexed (String × Nat) := do
    let (data, offset) ← readPushData bytecode read.2 read.1
    pure (label ++ " 0x" ++ bytecodeHex data, offset)
  let value := opcode.toNat
  if value = 0x00 then pure ("OP_0", offset)
  else if value ≤ 0x4b then pushed ("OP_DATA_" ++ toString value) (value, offset)
  else if value = 0x4c then readLenU8 bytecode offset >>= pushed "OP_PUSHDATA1"
  else if value = 0x4d then readLenU16 bytecode offset >>= pushed "OP_PUSHDATA2"
  else if value = 0x4e then readLenU32 bytecode offset >>= pushed "OP_PUSHDATA4"
  else if value = 0x4f then pure ("OP_1NEGATE", offset)
  else if 0x51 ≤ value ∧ value ≤ 0x60 then pure ("OP_" ++ toString (value - 0x50), offset)
  else
    match opcodeName value with
    | some name => pure (name, offset)
    | none => throw (.invalidBytecode (offset - 1) ("unknown opcode 0x" ++ bytecodeHex [opcode]))

/-- `while offset < bytecode.len()` -/
def disassembleFrom (bytecode : Bytes) : Nat → Nat → Indexed (List String)
  | 0, _ => pure []
  | fuel + 1, offset =>
      if offset < bytecode.length then do
        let opcode ← byteAt bytecode offset
        let (item, offset) ← disassembleItem bytecode opcode (offset + 1)
        let asm ← disassembleFrom bytecode fuel offset
        pure (item :: asm)
      else pure []

def disassemble (bytecode : Bytes) : Indexed (List String) :=
  disassembleFrom bytecode bytecode.length 0

section

variable {α β : Type} {bytecode : Bytes} {offset : Nat}

theorem total_pure (a : α) : Total (pure a) (.ok a) := rfl

theorem total_throw (e : CodegenError) : Total (throw e : Indexed α) (.error e) := rfl

theorem Total.bind {x : Indexed α} {y : Except CodegenError α} {f : α → Indexed β}
    {g : α → Except CodegenError β} (h : Total x y) (hnext : ∀ a, y = .ok a → Total (f a) (g a)) :
    Total (x >>= f) (y >>= g) := by
  have hrun : (x >>= f).run = some y >>= ExceptT.bindCont f := by
    rw [← h]
    rfl
  unfold Total
  rw [hrun]
  cases y with
  | error e => rfl
  | ok a => exact hnext a rfl

theorem Total.ok_bind {x : Indexed α} {a : α} {f : α → Indexed β} {y : Except CodegenError β}
    (h : Total x (.ok a)) (hnext : Total (f a) y) : Total (x >>= f) y := by
  have hboth := @Total.bind α β x (.ok a) f (fun _ => y) h
  apply hboth
  intro b hb
  obtain rfl := Except.ok.inj hb
  exact hnext

theorem total_byteAt {opcode : UInt8} (h : bytecode[offset]? = some opcode) :
    Total (byteAt bytecode offset) (.ok opcode) := by
  unfold Total byteAt
  rw [h]
  rfl

theorem total_readPushData (len : Nat) :
    Total (readPushData bytecode offset len) (KaspaScript.readPushData bytecode offset len) := by
  unfold readPushData KaspaScript.readPushData
  by_cases hlong : offset + len > bytecode.length
  · simp only [hlong, if_true]
    exact total_throw _
  · simp only [hlong, if_false]
    have hslice : Total (sliceAt bytecode offset (offset + len))
        (.ok ((bytecode.drop offset).take len)) := by
      unfold Total sliceAt
      rw [if_pos ⟨Nat.le_add_right offset len, Nat.le_of_not_lt hlong⟩, Nat.add_sub_cancel_left]
      rfl
    exact hslice.ok_bind (total_pure _)

theorem total_bytes {width : Nat} (h : offset + width ≤ bytecode.length) :
    Total ((List.range width).mapM fun i => byteAt bytecode (offset + i))
      (.ok ((bytecode.drop offset).take width)) := by
  induction width with
  | zero => exact total_pure []
  | succ width ih =>
    obtain ⟨byte, hbyte⟩ : ∃ byte, bytecode[offset + width]? = some byte :=
      ⟨_, List.getElem?_eq_getElem (by omega)⟩
    have htake : (bytecode.drop offset).take (width + 1) =
        (bytecode.drop offset).take width ++ [byte] := by
      rw [List.take_add_one, List.getElem?_drop, hbyte]
      rfl
    rw [List.range_succ, List.mapM_append, htake]
    have hlast : Total ([width].mapM fun i => byteAt bytecode (offset + i)) (.ok [byte]) := by
      rw [List.mapM_cons, List.mapM_nil]
      exact (total_byteAt hbyte).ok_bind (total_pure _)
    exact (ih (by omega)).ok_bind (hlast.ok_bind (total_pure _))

theorem total_readLen (width : Nat) (message : String) :
    Total (readLen width message bytecode offset)
      (KaspaScript.readLen width message bytecode offset) := by
  unfold readLen KaspaScript.readLen
  by_cases hshort : bytecode.length - offset < width
  · simp only [hshort, if_true]
    exact total_throw _
  · simp only [hshort, if_false]
    by_cases hwidth : width = 0
    · subst hwidth
      exact total_pure _
    · exact (total_bytes (by omega)).ok_bind (total_pure _)

theorem total_disassembleItem (opcode : UInt8) :
    Total (disassembleItem bytecode opcode offset)
      (KaspaScript.disassembleItem bytecode opcode offset) := by
  have pushed (label : String) (read : Nat × Nat) :
      Total (do let push ← readPushData bytecode read.2 read.1
                pure (label ++ " 0x" ++ bytecodeHex push.1, push.2))
        (do let push ← KaspaScript.readPushData bytecode read.2 read.1
            pure (label ++ " 0x" ++ bytecodeHex push.1, push.2)) :=
    (total_readPushData read.1).bind fun _ _ => total_pure _
  unfold disassembleItem KaspaScript.disassembleItem
  simp only
  split_ifs
  · exact total_pure _
  · exact pushed _ (opcode.toNat, offset)
  · exact (total_readLen 1 _).bind fun _ _ => pushed _ _
  · exact (total_readLen 2 _).bind fun _ _ => pushed _ _
  · exact (total_readLen 4 _).bind fun _ _ => pushed _ _
  · exact total_pure _
  · exact total_pure _
  · cases opcodeName opcode.toNat with
    | some name => exact total_pure _
    | none => exact total_throw _

theorem total_disassembleFrom (fuel : Nat) :
    Total (disassembleFrom bytecode fuel offset)
      (KaspaScript.disassembleFrom bytecode fuel offset) := by
  induction fuel generalizing offset with
  | zero => exact total_pure []
  | succ fuel ih =>
    rw [disassembleFrom, KaspaScript.disassembleFrom]
    by_cases hin : offset < bytecode.length
    · rw [if_pos hin, List.getElem?_eq_getElem hin]
      apply (total_byteAt (List.getElem?_eq_getElem hin)).ok_bind
      apply (total_disassembleItem _).bind
      intro read _
      exact ih.bind fun _ _ => total_pure _
    · rw [if_neg hin, List.getElem?_eq_none (Nat.le_of_not_lt hin)]
      exact total_pure []

/-- No input makes the disassembler read outside the slice. -/
theorem total_disassemble (bytecode : Bytes) :
    Total (disassemble bytecode) (KaspaScript.disassemble bytecode) :=
  total_disassembleFrom bytecode.length

end

end Indexed

section

variable {bytecode : Bytes} {offset : Nat}

/-- What a push reads stands behind the offset. -/
theorem readPushData_eq_ok {len next : Nat} {data : Bytes}
    (h : readPushData bytecode offset len = .ok (data, next)) :
    bytecode.drop offset = data ++ bytecode.drop next ∧ data.length = len ∧
      next ≤ bytecode.length := by
  unfold readPushData at h
  split_ifs at h with hlong
  rw [Except.ok.injEq, Prod.mk.injEq] at h
  obtain ⟨rfl, rfl⟩ := h
  refine ⟨?_, ?_, by omega⟩
  · rw [← List.drop_drop, List.take_append_drop]
  · rw [List.length_take, List.length_drop]
    omega

theorem readLen_eq_ok {width len next : Nat} {message : String}
    (h : readLen width message bytecode offset = .ok (len, next)) :
    bytecode.drop offset = leBytes width len ++ bytecode.drop next ∧ len < 256 ^ width ∧
      (offset ≤ bytecode.length → next ≤ bytecode.length) := by
  unfold readLen at h
  split_ifs at h with hshort
  rw [Except.ok.injEq, Prod.mk.injEq] at h
  obtain ⟨rfl, rfl⟩ := h
  have hlength : ((bytecode.drop offset).take width).length = width := by
    rw [List.length_take, List.length_drop]
    omega
  refine ⟨?_, ?_, by omega⟩
  · rw [leBytes_unsigned hlength, ← List.drop_drop, List.take_append_drop]
  · have hlt := Library.ScriptNum.unsigned_lt ((bytecode.drop offset).take width)
    rwa [hlength] at hlt

/-- What a push of a known length reads. -/
theorem pushed_eq_ok {label text : String} {start len next : Nat}
    (h : (do let (data, offset) ← readPushData bytecode start len
             pure (label ++ " 0x" ++ bytecodeHex data, offset) :
           Except CodegenError (String × Nat)) = .ok (text, next)) :
    ∃ data : Bytes, data.length = len ∧ text = label ++ " 0x" ++ bytecodeHex data ∧
      bytecode.drop start = data ++ bytecode.drop next ∧ next ≤ bytecode.length := by
  obtain ⟨read, hread, h⟩ := bind_eq_ok.mp h
  obtain ⟨hdrop, hlen, hnext⟩ := readPushData_eq_ok hread
  rw [pure_eq_ok, Prod.mk.injEq] at h
  obtain ⟨rfl, rfl⟩ := h
  exact ⟨read.1, hlen, rfl, hdrop, hnext⟩

/-- What a push reads whose length stands before its data. -/
theorem pushedLen_eq_ok {width start next : Nat} {message label text : String}
    (h : (do let read ← readLen width message bytecode start
             let (data, offset) ← readPushData bytecode read.2 read.1
             pure (label ++ " 0x" ++ bytecodeHex data, offset) :
           Except CodegenError (String × Nat)) = .ok (text, next)) :
    ∃ data : Bytes, data.length < 256 ^ width ∧ text = label ++ " 0x" ++ bytecodeHex data ∧
      bytecode.drop start = leBytes width data.length ++ data ++ bytecode.drop next ∧
      next ≤ bytecode.length := by
  obtain ⟨read, hread, h⟩ := bind_eq_ok.mp h
  obtain ⟨hlen, hfits, _⟩ := readLen_eq_ok hread
  obtain ⟨data, hdata, htext, hdrop, hnext⟩ := pushed_eq_ok h
  rw [← hdata] at hlen hfits
  exact ⟨data, hfits, htext, by rw [hlen, hdrop, List.append_assoc], hnext⟩

/-- An item that is shown stands whole in the slice. -/
theorem disassembleItem_eq_ok {opcode : UInt8} {text : String} {next : Nat}
    (hopcode : bytecode[offset]? = some opcode)
    (h : disassembleItem bytecode opcode (offset + 1) = .ok (text, next)) :
    ∃ item : Item, item.text = text ∧ bytecode.drop offset = item.bytes ++ bytecode.drop next ∧
      next ≤ bytecode.length := by
  obtain ⟨hin, hget⟩ := List.getElem?_eq_some_iff.mp hopcode
  have hhead : bytecode.drop offset = opcode :: bytecode.drop (offset + 1) := by
    rw [List.drop_eq_getElem_cons hin, hget]
  rw [hhead]
  -- an item of one byte
  have alone (item : Item) (hbytes : item.bytes = [opcode])
      (hok : (.ok (item.text, offset + 1) : Except CodegenError (String × Nat)) =
        .ok (text, next)) :
      ∃ item : Item, item.text = text ∧
        opcode :: bytecode.drop (offset + 1) = item.bytes ++ bytecode.drop next ∧
        next ≤ bytecode.length := by
    rw [Except.ok.injEq, Prod.mk.injEq] at hok
    obtain ⟨htext, rfl⟩ := hok
    exact ⟨item, htext, by rw [hbytes]; rfl, hin⟩
  have byteOf {value : Nat} (hvalue : opcode.toNat = value) : opcode = UInt8.ofNat value := by
    rw [← hvalue, UInt8.ofNat_toNat]
  unfold disassembleItem at h
  simp only at h
  split_ifs at h with hzero hdirect hone htwo hfour hnegate hsmall
  · exact alone .zero (by rw [byteOf hzero]; rfl) h
  · obtain ⟨data, hlen, htext, hdrop, hnext⟩ := pushed_eq_ok h
    refine ⟨.direct data (by omega) (by omega), ?_, ?_, hnext⟩
    · rw [htext, ← hlen]
      rfl
    · rw [hdrop, Item.bytes, hlen, UInt8.ofNat_toNat]
      rfl
  · obtain ⟨data, hlen, htext, hdrop, hnext⟩ := pushedLen_eq_ok h
    exact ⟨.pushData1 data hlen, htext.symm, by rw [hdrop, byteOf hone]; rfl, hnext⟩
  · obtain ⟨data, hlen, htext, hdrop, hnext⟩ := pushedLen_eq_ok h
    exact ⟨.pushData2 data hlen, htext.symm, by rw [hdrop, byteOf htwo]; rfl, hnext⟩
  · obtain ⟨data, hlen, htext, hdrop, hnext⟩ := pushedLen_eq_ok h
    exact ⟨.pushData4 data hlen, htext.symm, by rw [hdrop, byteOf hfour]; rfl, hnext⟩
  · exact alone .negate (by rw [byteOf hnegate]; rfl) h
  · refine alone (.small (opcode.toNat - 0x50) (by omega) (by omega)) ?_ h
    rw [Item.bytes, Nat.add_sub_cancel' (by omega), UInt8.ofNat_toNat]
  · cases hname : opcodeName opcode.toNat with
    | some name =>
      rw [hname] at h
      exact alone (.named opcode name hname) rfl h
    | none =>
      rw [hname] at h
      cases h

/-- An accepted slice is items from one end to the other. -/
theorem disassembleFrom_eq_ok {fuel : Nat} {asm : List String}
    (hfuel : bytecode.length - offset ≤ fuel)
    (h : disassembleFrom bytecode fuel offset = .ok asm) :
    ∃ items : List Item, bytecode.drop offset = items.flatMap Item.bytes ∧
      asm = items.map Item.text := by
  induction fuel generalizing offset asm with
  | zero =>
    obtain rfl := Except.ok.inj h
    exact ⟨[], List.drop_eq_nil_of_le (by omega), rfl⟩
  | succ fuel ih =>
    rw [disassembleFrom] at h
    cases hopcode : bytecode[offset]? with
    | none =>
      rw [hopcode] at h
      obtain rfl := Except.ok.inj h
      exact ⟨[], List.drop_eq_nil_of_le (List.getElem?_eq_none_iff.mp hopcode), rfl⟩
    | some opcode =>
      rw [hopcode] at h
      obtain ⟨read, hread, h⟩ := bind_eq_ok.mp h
      obtain ⟨rest, hrest, h⟩ := bind_eq_ok.mp h
      rw [pure_eq_ok] at h
      obtain ⟨item, htext, hdrop, hnext⟩ := disassembleItem_eq_ok hopcode hread
      have hpos : 1 ≤ item.bytes.length := by cases item <;> simp [Item.bytes]
      have hlength := congrArg List.length hdrop
      rw [List.length_append, List.length_drop, List.length_drop] at hlength
      obtain ⟨items, hitems, hasm⟩ := ih (by omega) hrest
      refine ⟨item :: items, ?_, ?_⟩
      · rw [hdrop, hitems, List.flatMap_cons]
      · rw [← h, hasm, List.map_cons, htext]

/-- The bytes that are accepted are the concatenations of items. -/
theorem disassemble_eq_ok {asm : List String} :
    disassemble bytecode = .ok asm ↔ Shows bytecode asm := by
  constructor
  · intro h
    obtain ⟨items, hbytes, hasm⟩ := disassembleFrom_eq_ok (by simp) h
    exact ⟨items, by rw [← hbytes, List.drop_zero], hasm.symm⟩
  · exact Shows.disassemble_eq

/-- The error points into the slice, or at its end. -/
def PointsInto (bytecode : Bytes) (e : CodegenError) : Prop :=
  ∃ offset message, e = .invalidBytecode offset message ∧ offset ≤ bytecode.length

theorem pushed_eq_error {label : String} {start len : Nat} {e : CodegenError}
    (hstart : start ≤ bytecode.length)
    (h : (do let (data, offset) ← readPushData bytecode start len
             pure (label ++ " 0x" ++ bytecodeHex data, offset) :
           Except CodegenError (String × Nat)) = .error e) : PointsInto bytecode e := by
  unfold readPushData at h
  split_ifs at h with hlong
  · cases h
    exact ⟨start, _, rfl, hstart⟩
  · cases h

theorem pushedLen_eq_error {width start : Nat} {message label : String} {e : CodegenError}
    (hstart : start ≤ bytecode.length)
    (h : (do let read ← readLen width message bytecode start
             let (data, offset) ← readPushData bytecode read.2 read.1
             pure (label ++ " 0x" ++ bytecodeHex data, offset) :
           Except CodegenError (String × Nat)) = .error e) : PointsInto bytecode e := by
  cases hread : readLen width message bytecode start with
  | error e' =>
    rw [hread] at h
    cases h
    unfold readLen at hread
    split_ifs at hread
    cases hread
    exact ⟨start, _, rfl, hstart⟩
  | ok read =>
    rw [hread] at h
    exact pushed_eq_error ((readLen_eq_ok hread).2.2 hstart) h

theorem disassembleItem_eq_error {opcode : UInt8} {e : CodegenError}
    (hin : offset < bytecode.length)
    (h : disassembleItem bytecode opcode (offset + 1) = .error e) : PointsInto bytecode e := by
  unfold disassembleItem at h
  simp only at h
  split_ifs at h
  · exact pushed_eq_error hin h
  · exact pushedLen_eq_error hin h
  · exact pushedLen_eq_error hin h
  · exact pushedLen_eq_error hin h
  · cases hname : opcodeName opcode.toNat with
    | some name =>
      rw [hname] at h
      cases h
    | none =>
      rw [hname] at h
      cases h
      exact ⟨offset, _, rfl, Nat.le_of_lt hin⟩

theorem disassembleFrom_eq_error {fuel : Nat} {e : CodegenError}
    (h : disassembleFrom bytecode fuel offset = .error e) : PointsInto bytecode e := by
  induction fuel generalizing offset with
  | zero => cases h
  | succ fuel ih =>
    rw [disassembleFrom] at h
    cases hopcode : bytecode[offset]? with
    | none =>
      rw [hopcode] at h
      cases h
    | some opcode =>
      rw [hopcode] at h
      have hin := (List.getElem?_eq_some_iff.mp hopcode).1
      cases hread : disassembleItem bytecode opcode (offset + 1) with
      | error e' =>
        simp only [hread] at h
        cases h
        exact disassembleItem_eq_error hin hread
      | ok read =>
        simp only [hread, Library.ok_bind] at h
        cases hrest : disassembleFrom bytecode fuel read.2 with
        | error e' =>
          rw [hrest] at h
          cases h
          exact ih hrest
        | ok rest =>
          rw [hrest] at h
          cases h

end

/-! The bytes of a text. -/

/-- The word before an item's data. -/
def opcodeLabel (opcode : Nat) : Option String :=
  if opcode = 0x00 then some "OP_0"
  else if opcode ≤ 0x4b then some ("OP_DATA_" ++ toString opcode)
  else if opcode = 0x4c then some "OP_PUSHDATA1"
  else if opcode = 0x4d then some "OP_PUSHDATA2"
  else if opcode = 0x4e then some "OP_PUSHDATA4"
  else if opcode = 0x4f then some "OP_1NEGATE"
  else if 0x51 ≤ opcode ∧ opcode ≤ 0x60 then some ("OP_" ++ toString (opcode - 0x50))
  else opcodeName opcode

def decimal (digits : List Char) : Nat :=
  digits.foldl (fun n digit => 10 * n + (digit.toNat - '0'.toNat)) 0

/-- The labels that are no push of a length in the opcode. -/
def labels : List (List Char × Nat) :=
  (0x00 :: List.range' 0x4c 180).filterMap fun opcode =>
    (opcodeLabel opcode).map fun label => (label.toList, opcode)

def labelOpcode (label : List Char) : Option Nat :=
  if label.take 8 = "OP_DATA_".toList then some (decimal (label.drop 8)) else labels.lookup label

/-- A number for a word, different for different words of the table. -/
def wordCode (word : List Char) : Nat := word.foldl (fun n c => 256 * n + c.toNat) 0

/-- The letters, digits and underlines that labels are made of stand behind the space. -/
def isLabelText (word : List Char) : Bool := word.all fun c => 48 ≤ c.toNat

theorem labels_codes : (labels.map fun entry => wordCode entry.1).Nodup ∧
    ∀ entry ∈ labels, wordCode (entry.1.take 8) ≠ wordCode "OP_DATA_".toList ∧
      wordCode entry.1 ≠ 0 ∧ isLabelText entry.1 = true := by
  decide +kernel

theorem directLabels_codes : ∀ n < 76,
    labelOpcode ("OP_DATA_" ++ toString n).toList = some n ∧
      isLabelText ("OP_DATA_" ++ toString n).toList = true := by
  decide +kernel

theorem labelOpcode_table {opcode : Nat} {label : List Char} (h : (label, opcode) ∈ labels) :
    labelOpcode label = some opcode := by
  obtain ⟨hcodes, htable⟩ := labels_codes
  have hkeys : (labels.map Prod.fst).Nodup := by
    apply List.Nodup.of_map wordCode
    rwa [List.map_map]
  have hother : label.take 8 ≠ "OP_DATA_".toList := by
    intro hsame
    exact (htable _ h).1 (congrArg wordCode hsame)
  rw [labelOpcode, if_neg hother]
  exact Library.lookup_of_nodup hkeys h

theorem labelOpcode_nil : labelOpcode [] = none := by
  have hother : ([] : List Char).take 8 ≠ "OP_DATA_".toList := by decide
  rw [labelOpcode, if_neg hother, List.lookup_eq_none_iff]
  intro entry hentry
  have hcode := (labels_codes.2 entry hentry).2.1
  rw [bne_iff_ne]
  intro hempty
  rw [← hempty] at hcode
  exact hcode rfl

/-- A label names one opcode and has no space in it. -/
theorem labelOpcode_label {opcode : Nat} {label : String} (hopcode : opcode < 256)
    (h : opcodeLabel opcode = some label) :
    labelOpcode label.toList = some opcode ∧ isLabelText label.toList = true := by
  by_cases hdirect : 1 ≤ opcode ∧ opcode ≤ 0x4b
  · rw [opcodeLabel, if_neg (by omega), if_pos hdirect.2] at h
    rw [← Option.some.inj h]
    exact directLabels_codes opcode (by omega)
  · have hmem : (label.toList, opcode) ∈ labels := by
      unfold labels
      rw [List.mem_filterMap]
      refine ⟨opcode, ?_, by rw [h]; rfl⟩
      by_cases hzero : opcode = 0
      · rw [hzero]
        exact List.mem_cons_self
      · apply List.mem_cons_of_mem
        rw [List.mem_range'_1]
        omega
    exact ⟨labelOpcode_table hmem, (labels_codes.2 _ hmem).2.2⟩

def readHexDigit (digit : Char) : Option Nat :=
  "0123456789abcdef".toList.findIdx? fun c => c == digit

def readHex : List Char → Option Bytes
  | [] => some []
  | high :: low :: rest => do
      let high ← readHexDigit high
      let low ← readHexDigit low
      let bytes ← readHex rest
      some (UInt8.ofNat (16 * high + low) :: bytes)
  | [_] => none

theorem readHexDigit_hexDigit : ∀ value < 16, readHexDigit (hexDigit value) = some value := by
  decide +kernel

theorem readHex_bytecodeHex (data : Bytes) : readHex (bytecodeHex data).toList = some data := by
  unfold bytecodeHex
  rw [String.toList_ofList]
  induction data with
  | nil => rfl
  | cons byte rest ih =>
    have hbyte : byte.toNat < 256 := byte.toNat_lt
    have hsum : 16 * (byte.toNat / 16) + byte.toNat % 16 = byte.toNat := by omega
    simp only [List.flatMap_cons, List.cons_append, List.nil_append, readHex,
      readHexDigit_hexDigit (byte.toNat / 16) (by omega),
      readHexDigit_hexDigit (byte.toNat % 16) (by omega), ih, Option.bind_eq_bind,
      Option.bind_some, hsum, UInt8.ofNat_toNat]

/-- How many bytes tell the length of a push behind its opcode. -/
def lengthWidth (opcode : Nat) : Option Nat :=
  if 1 ≤ opcode ∧ opcode ≤ 0x4b then some 0
  else if opcode = 0x4c then some 1
  else if opcode = 0x4d then some 2
  else if opcode = 0x4e then some 4
  else none

/-- The bytes that the words of a text stand for. -/
def assembleWords : List (List Char) → Option Bytes
  | [] => some []
  | [label] => (labelOpcode label).bind fun opcode =>
      if lengthWidth opcode = none then some [UInt8.ofNat opcode] else none
  | label :: digits :: rest => (labelOpcode label).bind fun opcode =>
      match lengthWidth opcode with
      | none => (assembleWords (digits :: rest)).map fun bytes => UInt8.ofNat opcode :: bytes
      | some width =>
          (readHex (digits.drop 2)).bind fun data =>
            (assembleWords rest).map fun bytes =>
              UInt8.ofNat opcode :: leBytes width data.length ++ data ++ bytes

def assemble (asm : String) : Option Bytes :=
  if asm = "" then some [] else assembleWords (asm.toList.splitOn ' ')

namespace Item

def opcode : Item → Nat
  | .zero => 0x00
  | .direct data _ _ => data.length
  | .pushData1 _ _ => 0x4c
  | .pushData2 _ _ => 0x4d
  | .pushData4 _ _ => 0x4e
  | .negate => 0x4f
  | .small n _ _ => 0x50 + n
  | .named opcode _ _ => opcode.toNat

def payload : Item → Option Bytes
  | .direct data _ _ | .pushData1 data _ | .pushData2 data _ | .pushData4 data _ => some data
  | .zero | .negate | .small _ _ _ | .named _ _ _ => none

/-- The word of an item that stands before its data. -/
theorem exists_label (item : Item) : ∃ label, opcodeLabel item.opcode = some label ∧
    item.text = label ++ (item.payload.map fun data => " 0x" ++ bytecodeHex data).getD "" := by
  have pushed (label : String) (data : Bytes) :
      label ++ " 0x" ++ bytecodeHex data = label ++ (" 0x" ++ bytecodeHex data) :=
    String.append_assoc
  cases item with
  | direct data hpos hlen =>
    refine ⟨"OP_DATA_" ++ toString data.length, ?_, ?_⟩
    · rw [opcode, opcodeLabel, if_neg (by omega), if_pos hlen]
    · exact pushed _ data
  | pushData1 data hlen => exact ⟨"OP_PUSHDATA1", rfl, pushed "OP_PUSHDATA1" data⟩
  | pushData2 data hlen => exact ⟨"OP_PUSHDATA2", rfl, pushed "OP_PUSHDATA2" data⟩
  | pushData4 data hlen => exact ⟨"OP_PUSHDATA4", rfl, pushed "OP_PUSHDATA4" data⟩
  | small n hpos hn =>
    refine ⟨"OP_" ++ toString n, ?_, by simp [text, payload]⟩
    rw [opcode, opcodeLabel, if_neg (by omega), if_neg (by omega), if_neg (by omega),
      if_neg (by omega), if_neg (by omega), if_neg (by omega), if_pos (by omega),
      Nat.add_sub_cancel_left]
  | named opcode name hname =>
    have hhigh := opcodeName_high hname
    refine ⟨name, ?_, by simp [text, payload]⟩
    rw [Item.opcode, opcodeLabel, if_neg (by omega), if_neg (by omega), if_neg (by omega),
      if_neg (by omega), if_neg (by omega), if_neg (by omega), if_neg (by omega), hname]
  | _ => exact ⟨_, rfl, rfl⟩

theorem opcode_lt (item : Item) : item.opcode < 256 := by
  cases item with
  | named opcode name hname => exact opcode.toNat_lt
  | _ =>
    simp only [opcode]
    omega

/-- Opcode, length and data. -/
theorem bytes_eq (item : Item) :
    (lengthWidth item.opcode = none ∧ item.payload = none ∧ item.bytes = [UInt8.ofNat item.opcode]) ∨
      ∃ width data, lengthWidth item.opcode = some width ∧ item.payload = some data ∧
        item.bytes = UInt8.ofNat item.opcode :: leBytes width data.length ++ data := by
  cases item with
  | direct data hpos hlen =>
    right
    exact ⟨0, data, by rw [opcode, lengthWidth, if_pos ⟨hpos, hlen⟩], rfl, rfl⟩
  | pushData1 data hlen => exact .inr ⟨1, data, rfl, rfl, rfl⟩
  | pushData2 data hlen => exact .inr ⟨2, data, rfl, rfl, rfl⟩
  | pushData4 data hlen => exact .inr ⟨4, data, rfl, rfl, rfl⟩
  | small n hpos hn =>
    left
    refine ⟨?_, rfl, rfl⟩
    rw [opcode, lengthWidth, if_neg (by omega), if_neg (by omega), if_neg (by omega),
      if_neg (by omega)]
  | named opcode name hname =>
    left
    have hhigh := opcodeName_high hname
    refine ⟨?_, rfl, by rw [bytes, Item.opcode, UInt8.ofNat_toNat]⟩
    rw [Item.opcode, lengthWidth, if_neg (by omega), if_neg (by omega), if_neg (by omega),
      if_neg (by omega)]
  | _ => exact .inl ⟨rfl, rfl, rfl⟩

/-- The words of an item's text. -/
def words (item : Item) : List (List Char) :=
  ((opcodeLabel item.opcode).getD "").toList ::
    (item.payload.map fun data => '0' :: 'x' :: (bytecodeHex data).toList).toList

theorem toList_text (item : Item) : item.text.toList = [' '].intercalate item.words := by
  obtain ⟨label, hlabel, htext⟩ := item.exists_label
  rw [htext, words, hlabel]
  cases item.payload with
  | none => simp
  | some data => simp [String.toList_append]

/-- Reading an item's words gives its bytes. -/
theorem assembleWords_words (item : Item) (rest : List (List Char)) :
    assembleWords (item.words ++ rest) = (assembleWords rest).map (item.bytes ++ ·) := by
  obtain ⟨label, hlabel, _⟩ := item.exists_label
  have hopcode := (labelOpcode_label item.opcode_lt hlabel).1
  rcases item.bytes_eq with ⟨hwidth, hpayload, hbytes⟩ | ⟨width, data, hwidth, hpayload, hbytes⟩
  · rw [words, hlabel, hpayload, hbytes]
    cases rest with
    | nil => simp [assembleWords, hopcode, hwidth]
    | cons digits rest =>
      simp only [Option.getD_some, Option.map_none, Option.toList_none, List.cons_append,
        List.nil_append, assembleWords, hopcode, hwidth, Option.bind_some]
  · rw [words, hlabel, hpayload, hbytes]
    simp only [Option.getD_some, Option.map_some, Option.toList_some, List.cons_append,
      List.nil_append, assembleWords, hopcode, hwidth, Option.bind_some, List.drop_succ_cons,
      List.drop_zero, readHex_bytecodeHex]

theorem assembleWords_items (items : List Item) :
    assembleWords (items.flatMap words) = some (items.flatMap bytes) := by
  induction items with
  | nil => rfl
  | cons item rest ih =>
    rw [List.flatMap_cons, assembleWords_words, ih]
    rfl

theorem space_not_mem_words (item : Item) : ∀ word ∈ item.words, ' ' ∉ word := by
  have hdigits : ∀ value < 16, hexDigit value ≠ ' ' := by decide +kernel
  obtain ⟨label, hlabel, _⟩ := item.exists_label
  intro word hword hspace
  rw [words, hlabel, List.mem_cons, Option.mem_toList, Option.map_eq_some_iff] at hword
  rcases hword with rfl | ⟨data, _, rfl⟩
  · have hall := (labelOpcode_label item.opcode_lt hlabel).2
    rw [isLabelText, List.all_eq_true] at hall
    exact absurd (hall ' ' hspace) (by decide)
  · simp only [List.mem_cons, Char.reduceEq, false_or, bytecodeHex, String.toList_ofList,
      List.mem_flatMap, List.not_mem_nil, or_false] at hspace
    obtain ⟨byte, _, hhigh | hlow⟩ := hspace
    · have hbyte : byte.toNat < 256 := byte.toNat_lt
      exact hdigits (byte.toNat / 16) (by omega) hhigh.symm
    · exact hdigits (byte.toNat % 16) (by omega) hlow.symm

theorem intercalate_append {sep : List Char} {front back : List (List Char)} (hfront : front ≠ [])
    (hback : back ≠ []) :
    sep.intercalate (front ++ back) = sep.intercalate front ++ sep ++ sep.intercalate back := by
  induction front with
  | nil => exact absurd rfl hfront
  | cons word rest ih =>
    by_cases hrest : rest = []
    · subst hrest
      rw [List.cons_append, List.nil_append, List.intercalate_cons_of_ne_nil hback,
        List.intercalate_singleton]
    · have hmore : rest ++ back ≠ [] := by simp [hrest]
      rw [List.cons_append, List.intercalate_cons_of_ne_nil hmore, ih hrest,
        List.intercalate_cons_of_ne_nil hrest]
      simp only [List.append_assoc]

/-- The words of the joined texts. -/
theorem toList_asm (items : List Item) :
    (" ".intercalate (items.map text)).toList = [' '].intercalate (items.flatMap words) := by
  rw [String.toList_intercalate, List.map_map]
  induction items with
  | nil => rfl
  | cons item rest ih =>
    by_cases hrest : rest = []
    · subst hrest
      simpa using item.toList_text
    · have hwords : item.words ≠ [] := by simp [words]
      have hmore : rest.flatMap words ≠ [] := by
        obtain ⟨next, others, rfl⟩ := List.exists_cons_of_ne_nil hrest
        simp [words]
      have htexts : rest.map (String.toList ∘ text) ≠ [] := by simpa using hrest
      rw [List.map_cons, List.intercalate_cons_of_ne_nil htexts, ih, List.flatMap_cons,
        intercalate_append hwords hmore, Function.comp_apply, toList_text]
      rfl

end Item

/-- The text of accepted bytecode gives the bytecode back. -/
theorem assemble_bytecodeAsm {bytecode : Bytes} {asm : String}
    (h : bytecodeAsm bytecode = .ok asm) : assemble asm = some bytecode := by
  obtain ⟨texts, htexts, rfl⟩ := map_eq_ok.mp h
  obtain ⟨items, rfl, rfl⟩ := disassemble_eq_ok.mp htexts
  unfold assemble
  cases items with
  | nil => rfl
  | cons item rest =>
    have hwords : (item :: rest).flatMap Item.words ≠ [] := by simp [Item.words]
    have hspace : ∀ word ∈ (item :: rest).flatMap Item.words, ' ' ∉ word := by
      intro word hword
      obtain ⟨other, _, hother⟩ := List.mem_flatMap.mp hword
      exact other.space_not_mem_words word hother
    have hsplit := List.splitOn_intercalate ' ' hspace hwords
    rw [← Item.toList_asm] at hsplit
    have hne : " ".intercalate ((item :: rest).map Item.text) ≠ "" := by
      intro hempty
      rw [hempty] at hsplit
      have hnone : assembleWords ("".toList.splitOn ' ') = none := by
        rw [String.toList_empty, List.splitOn_nil, assembleWords, labelOpcode_nil]
        rfl
      rw [hsplit, Item.assembleWords_items] at hnone
      cases hnone
    rw [if_neg hne, hsplit, Item.assembleWords_items]

/-- On any bytes the disassembler stays inside the slice, accepts exactly the concatenations of
items, which it shows one by one to the last byte, and otherwise points into the slice or at its
end; the text it joins gives the bytes back. -/
theorem disassemble_exact (bytecode : Bytes) :
    Indexed.Total (Indexed.disassemble bytecode) (disassemble bytecode) ∧
    ((∃ asm, disassemble bytecode = .ok asm) ↔
      ∃ items : List Item, items.flatMap Item.bytes = bytecode) ∧
    (∀ asm, disassemble bytecode = .ok asm →
      ∃ items : List Item, items.flatMap Item.bytes = bytecode ∧ items.map Item.text = asm) ∧
    (∀ e, disassemble bytecode = .error e → PointsInto bytecode e) ∧
    (∀ asm, bytecodeAsm bytecode = .ok asm → assemble asm = some bytecode) ∧
    ∀ other asm, bytecodeAsm bytecode = .ok asm → bytecodeAsm other = .ok asm →
      other = bytecode := by
  refine ⟨Indexed.total_disassemble bytecode, ?_, fun asm => disassemble_eq_ok.mp,
    fun e => disassembleFrom_eq_error, fun asm => assemble_bytecodeAsm, ?_⟩
  · constructor
    · intro h
      obtain ⟨asm, hasm⟩ := h
      obtain ⟨items, hitems, _⟩ := disassemble_eq_ok.mp hasm
      exact ⟨items, hitems⟩
    · intro h
      obtain ⟨items, rfl⟩ := h
      exact ⟨_, disassemble_items items⟩
  · intro other asm hasm hother
    have hbytes := assemble_bytecodeAsm hasm
    rw [assemble_bytecodeAsm hother] at hbytes
    exact Option.some.inj hbytes

end KaspaScript
