import KaspaScript.Meaning.CleanStack

namespace KaspaScript

open Library (StackEffect joinAll run_append run_cons)
open Library.ScriptNum (encode)
open Library.StackEffect (Local leaves local_one local_push)

def Opcode.IsPush (op : Opcode) : Prop := ∃ data, op = .push data ∨ op = .pushNonMinimal data

/-- Opcodes for instructions, with some push in the place of every symbol. -/
inductive Filled : List InstructionKind → List Opcode → Prop
  | nil : Filled [] []
  | symbol {name op code ops} : op.IsPush → Filled code ops →
      Filled (.push (.symbol name) :: code) (op :: ops)
  | plain {kind code ops} : (∀ name, kind ≠ .push (.symbol name)) → Filled code ops →
      Filled (kind :: code) (opcodes kind ++ ops)

theorem Filled.append {xs ys : List InstructionKind} {ops : List Opcode}
    (h : Filled (xs ++ ys) ops) : ∃ first rest, ops = first ++ rest ∧ Filled xs first ∧
      Filled ys rest := by
  induction xs generalizing ops with
  | nil => exact ⟨[], ops, rfl, .nil, h⟩
  | cons kind xs ih =>
    cases h with
    | symbol hpush h =>
      obtain ⟨first, rest, rfl, hfirst, hrest⟩ := ih h
      exact ⟨_ :: first, rest, rfl, .symbol hpush hfirst, hrest⟩
    | plain hkind h =>
      obtain ⟨first, rest, rfl, hfirst, hrest⟩ := ih h
      exact ⟨opcodes kind ++ first, rest, (List.append_assoc ..).symm, .plain hkind hfirst, hrest⟩

section

variable {env : ScriptEnv}

/-- However its symbols are filled, the code looks only at the elements that its effect takes. -/
def LocalTo (env : ScriptEnv) (code : List InstructionKind) (e : StackEffect) : Prop :=
  ∀ ops, Filled code ops → Local e (runOpcodes env ops)

theorem runOpcodes_append (ops ops' : List Opcode) :
    runOpcodes env (ops ++ ops') = fun s => (runOpcodes env ops s).bind (runOpcodes env ops') := by
  funext s
  exact run_append ops ops' s

theorem localTo_nil : LocalTo env [] 1 := by
  intro ops hops
  cases hops
  exact local_one

theorem LocalTo.append {xs ys : List InstructionKind} {e e' : StackEffect} (h : LocalTo env xs e)
    (h' : LocalTo env ys e') : LocalTo env (xs ++ ys) (e * e') := by
  intro ops hops
  obtain ⟨first, rest, rfl, hfirst, hrest⟩ := hops.append
  rw [runOpcodes_append]
  exact (h first hfirst).mul (h' rest hrest)

theorem local_isPush {op : Opcode} (h : op.IsPush) : Local (leaves 1) (runOpcodes env [op]) := by
  obtain ⟨data, rfl | rfl⟩ := h
  · exact local_push (some data) fun s => rfl
  · exact local_push none fun s => rfl

theorem localTo_single {kind : InstructionKind} (hsupported : isUnsupported kind = false)
    (hmultisig : kind.isMultisig = false) : LocalTo env [kind] kind.effect := by
  intro ops hops
  cases hops with
  | symbol hpush hrest =>
    cases hrest
    exact local_isPush hpush
  | plain _ hrest =>
    cases hrest
    rw [List.append_nil]
    exact local_opcodes hsupported hmultisig

/-- A key check over its own operands. -/
theorem localTo_multisig {required : Nat} {elements : List Expr} {signatures : Expr}
    {cs ck : List InstructionKind} (hfeeds : FeedsKeyCheck required elements signatures)
    (hrequired : required ≤ u32Max) (hcs : LocalTo env cs (leaves required))
    (hck : LocalTo env ck (leaves elements.length)) :
    LocalTo env (cs ++ [.push (.integer required)] ++ ck ++
      [.checkMultiSig required elements.length]) (leaves 1) := by
  intro ops hops
  obtain ⟨before, last, rfl, hbefore, hlast⟩ := hops.append
  obtain ⟨low, keys, rfl, hlow, hkeys⟩ := hbefore.append
  obtain ⟨sigs, threshold, rfl, hsigs, hthreshold⟩ := hlow.append
  obtain rfl : last = opcodes (.checkMultiSig required elements.length) := by
    cases hlast with
    | plain _ hrest =>
      cases hrest
      exact List.append_nil _
  obtain rfl : threshold = [.push (encode required)] := by
    cases hthreshold with
    | plain _ hrest =>
      cases hrest
      rfl
  obtain ⟨hsigsLength, hsigsRun⟩ := (hcs sigs hsigs).of_leaves
  obtain ⟨hkeysLength, hkeysRun⟩ := (hck keys hkeys).of_leaves
  have hcounted : elements.length ≤ i64Max := by
    have := hfeeds.counted
    unfold i64Max
    omega
  have hrun (s : Stack) : runOpcodes env (sigs ++ [.push (encode required)] ++ keys ++
      opcodes (.checkMultiSig required elements.length)) s =
      ((runOpcodes env sigs []).bind fun signatures =>
        (runOpcodes env keys []).bind fun keys =>
          if required ≤ elements.length then
            some (boolBytes (Library.matchInOrder env.checkSig signatures.reverse keys.reverse))
          else none).map (· :: s) := by
    have hsplit : runOpcodes env (sigs ++ [.push (encode required)] ++ keys ++
        opcodes (.checkMultiSig required elements.length)) s =
        (runOpcodes env sigs s).bind fun t => (runOpcodes env keys (encode required :: t)).bind
          (runOpcodes env (opcodes (.checkMultiSig required elements.length))) := by
      simp only [runOpcodes_append, Option.bind_assoc]
      rfl
    rw [hsplit, hsigsRun s]
    cases hsigsOut : runOpcodes env sigs [] with
    | none => rfl
    | some signatures =>
      have hlength := hsigsLength signatures hsigsOut
      simp only [Option.map_some, Option.bind_some]
      rw [hkeysRun (encode required :: (signatures ++ s))]
      cases hkeysOut : runOpcodes env keys [] with
      | none => rfl
      | some ks =>
        have hlength' := hkeysLength ks hkeysOut
        simp only [Option.map_some, Option.bind_some]
        rw [← hlength, ← hlength', run_checkMultiSig (hlength' ▸ hcounted)
          (hlength ▸ le_i64Max_of_le_u32Max hrequired)]
        split_ifs <;> rfl
  exact local_push _ hrun

theorem localTo_rules : EffectRules (LocalTo env) :=
  ⟨localTo_nil, LocalTo.append, localTo_single, localTo_multisig⟩

/-- A balanced step passes or fails alike on every stack, and leaves it as it was. -/
theorem local_balanced {f : Stack → Option Stack} (h : Local 1 f) :
    (∀ s, f s = none) ∨ ∀ s, f s = some s := by
  obtain ⟨hlength, hrun⟩ := Local.of_leaves (n := 0) h
  cases hout : f [] with
  | none =>
    left
    intro s
    rw [hrun, hout, Option.map_none]
  | some items =>
    right
    intro s
    obtain rfl : items = [] := List.eq_nil_of_length_eq_zero (hlength items hout)
    rw [hrun, hout, Option.map_some, List.nil_append]

end

end KaspaScript
