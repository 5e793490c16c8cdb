import KaspaScript.Ir.Captured
import KaspaScript.Ir.Substitute

namespace KaspaScript

open Checker (outputCallIndex)
open Library (Alike alike_pure alike_refl alike_joinAll joinAll)

/-- `input(i).script` or `output(i).script`. -/
def isScriptOperand : Expr → Bool
  | .field (.call (.ident root) [.integer _ _] _) field _ =>
      (root.name == "input" || root.name == "output") && field.name == "script"
  | _ => false

/-- The name of a key, and a script of the transaction. -/
def KeyAndScript (IsKey : String → Prop) (key script : Expr) : Prop :=
  (∃ id, key = .ident id ∧ IsKey id.name) ∧ isScriptOperand script = true

mutual

/-- What an expression may become when in some of its equalities between a key and a script the
operands are swapped. -/
def Expr.Swapped (IsKey : String → Prop) : Expr → Expr → Prop
  | .ident id, e' => e' = .ident id
  | .integer value span, e' => e' = .integer value span
  | .string value span, e' => e' = .string value span
  | .bool value span, e' => e' = .bool value span
  | .array elements span, e' =>
      ∃ elements', e' = .array elements' span ∧ SwappedEach IsKey elements elements'
  | .unary op e span, e' => ∃ inner, e' = .unary op inner span ∧ Expr.Swapped IsKey e inner
  | .binary left op right span, e' =>
      (∃ left' right', e' = .binary left' op right' span ∧ Expr.Swapped IsKey left left' ∧
        Expr.Swapped IsKey right right') ∨
      (e' = .binary right op left span ∧ op = .equal ∧
        (KeyAndScript IsKey left right ∨ KeyAndScript IsKey right left))
  | .call callee args span, e' =>
      ∃ callee' args', e' = .call callee' args' span ∧ Expr.Swapped IsKey callee callee' ∧
        SwappedEach IsKey args args'
  | .field object field span, e' =>
      ∃ object', e' = .field object' field span ∧ Expr.Swapped IsKey object object'

def SwappedEach (IsKey : String → Prop) : List Expr → List Expr → Prop
  | [], es' => es' = []
  | e :: es, es' =>
      ∃ e' rest, es' = e' :: rest ∧ Expr.Swapped IsKey e e' ∧ SwappedEach IsKey es rest

end

def Stmt.Swapped (IsKey : String → Prop) : Stmt → Stmt → Prop
  | .let name e span, stmt => ∃ e', stmt = .let name e' span ∧ e.Swapped IsKey e'
  | .require e span, stmt => ∃ e', stmt = .require e' span ∧ e.Swapped IsKey e'
  | .return e span, stmt => ∃ e', stmt = .return e' span ∧ e.Swapped IsKey e'

def Spend.Swapped (IsKey : String → Prop) (spend spend' : Spend) : Prop :=
  ∃ body, spend' = { spend with body := body } ∧
    List.Forall₂ (Stmt.Swapped IsKey) spend.body body

def Contract.Swapped (IsKey : String → Prop) (contract contract' : Contract) : Prop :=
  ∃ spends, contract' = { contract with spends := spends } ∧
    List.Forall₂ (Spend.Swapped IsKey) contract.spends spends

/-- An instruction that reads a script of the transaction. -/
def ReadsScript (kind : InstructionKind) : Prop :=
  ∃ index, kind = .inputScript index ∨ kind = .outputScript index

/-- A key's instruction, and one that reads a script. -/
def KeyAndRead (IsKey : String → Prop) (key read : InstructionKind) : Prop :=
  (∃ name, IsKey name ∧ key = identKind name) ∧ ReadsScript read

/-- Code in which some equalities between a key and a script read have their operands swapped. -/
inductive SwapsCode (IsKey : String → Prop) : List Instruction → List Instruction → Prop
  | nil : SwapsCode IsKey [] []
  | same {code code'} (instruction : Instruction) : SwapsCode IsKey code code' →
      SwapsCode IsKey (instruction :: code) (instruction :: code')
  | swap {a b code code'} (span : Span) :
      KeyAndRead IsKey a.kind b.kind ∨ KeyAndRead IsKey b.kind a.kind →
      SwapsCode IsKey code code' →
      SwapsCode IsKey (a :: b :: ⟨span, .equal⟩ :: code) (b :: a :: ⟨span, .equal⟩ :: code')

namespace SwapsCode

variable {IsKey : String → Prop}

theorem refl (code : List Instruction) : SwapsCode IsKey code code := by
  induction code with
  | nil => exact .nil
  | cons instruction code ih => exact .same instruction ih

theorem append {a b c d : List Instruction} (h : SwapsCode IsKey a b) (h' : SwapsCode IsKey c d) :
    SwapsCode IsKey (a ++ c) (b ++ d) := by
  induction h with
  | nil => exact h'
  | same instruction _ ih => exact .same instruction ih
  | swap span hswap _ ih => exact .swap span hswap ih

end SwapsCode

section

variable {IsKey : String → Prop} {file : String}

/-- A name or a literal. -/
def Expr.isAtom : Expr → Bool
  | .ident _ | .integer _ _ | .string _ _ | .bool _ _ => true
  | _ => false

/-- Names and literals stay, and nothing else becomes one. -/
theorem Expr.Swapped.atom {e e' : Expr} (h : e.Swapped IsKey e') :
    e' = e ∨ e.isAtom = false ∧ e'.isAtom = false := by
  cases e with
  | ident | integer | string | bool => exact Or.inl h
  | array | unary | field =>
    obtain ⟨_, rfl, _⟩ := h
    exact Or.inr ⟨rfl, rfl⟩
  | call =>
    obtain ⟨_, _, rfl, _⟩ := h
    exact Or.inr ⟨rfl, rfl⟩
  | binary =>
    rcases h with ⟨_, _, rfl, _⟩ | ⟨rfl, _⟩
    · exact Or.inr ⟨rfl, rfl⟩
    · exact Or.inr ⟨rfl, rfl⟩

theorem swappedEach_singleton {e : Expr} {es' : List Expr} (h : SwappedEach IsKey [e] es') :
    ∃ e', es' = [e'] ∧ e.Swapped IsKey e' := by
  obtain ⟨e', rest, rfl, he, hrest⟩ := h
  rw [SwappedEach] at hrest
  exact ⟨e', by rw [hrest], he⟩

/-- The two lowerings of an expression and of what it may become. -/
def SwapsIn (IsKey : String → Prop) (file : String) (e : Expr) : Prop :=
  ∀ e', e.Swapped IsKey e' → Alike (SwapsCode IsKey) (lowerExpr file e) (lowerExpr file e')

theorem swaps_refl (x : Lowered) : Alike (SwapsCode IsKey) x x := alike_refl SwapsCode.refl x

theorem swaps_each {es es' : List Expr} (h : SwappedEach IsKey es es')
    (ih : ∀ e ∈ es, SwapsIn IsKey file e) :
    List.Forall₂ (Alike (SwapsCode IsKey)) (lowerEach file es) (lowerEach file es') := by
  induction es generalizing es' with
  | nil =>
    rw [SwappedEach] at h
    rw [h]
    exact .nil
  | cons e es ihes =>
    obtain ⟨e', rest, rfl, he, hrest⟩ := h
    exact .cons (ih e List.mem_cons_self e' he)
      (ihes hrest fun e'' hmem => ih e'' (List.mem_cons_of_mem _ hmem))

theorem swaps_join {xs ys : List Lowered} (h : List.Forall₂ (Alike (SwapsCode IsKey)) xs ys) :
    Alike (SwapsCode IsKey) (joinAll xs) (joinAll ys) :=
  alike_joinAll .nil SwapsCode.append h

theorem swaps_get {xs ys : List Lowered} (h : List.Forall₂ (Alike (SwapsCode IsKey)) xs ys)
    (n : Nat) : Alike (SwapsCode IsKey) (joinAll xs[n]?.toList) (joinAll ys[n]?.toList) := by
  apply swaps_join
  induction h generalizing n with
  | nil => simp
  | cons hfirst _ ih =>
    cases n with
    | zero => simpa using hfirst
    | succ n => simpa using ih n

theorem swaps_snoc {x y : Lowered} (h : Alike (SwapsCode IsKey) x y) (tail : List Instruction) :
    Alike (SwapsCode IsKey) (do let code ← x; pure (code ++ tail))
      (do let code ← y; pure (code ++ tail)) := by
  apply h.bind
  intro a b hab
  exact alike_pure (hab.append (.refl _))

/-- The paths that the lowering looks for have no equality in them. -/
theorem collectPath_swapped {e e' : Expr} (h : e.Swapped IsKey e') :
    collectPath e' = collectPath e := by
  induction e using Expr.induct generalizing e' with
  | field object field span ih =>
    obtain ⟨object', rfl, hobject⟩ := h
    rw [collectPath, collectPath, ih hobject]
  | ident | integer | string | bool => rw [h]
  | array | unary =>
    obtain ⟨_, rfl, _⟩ := h
    rfl
  | call =>
    obtain ⟨_, _, rfl, _⟩ := h
    rfl
  | binary =>
    rcases h with ⟨_, _, rfl, _⟩ | ⟨rfl, _⟩
    · rfl
    · rfl

theorem lockClock_swapped {left left' : Expr} (op : BinaryOp) (h : left.Swapped IsKey left') :
    lockClock left' op = lockClock left op := by
  unfold lockClock isPath
  rw [collectPath_swapped h]

theorem swaps_lock {right right' : Expr} {span : Span} (clock : LockClock)
    (h : right.Swapped IsKey right')
    (ih : Alike (SwapsCode IsKey) (lowerExpr file right) (lowerExpr file right')) :
    Alike (SwapsCode IsKey)
      (lowerLock right span clock.literal clock.fromStack (lowerExpr file right))
      (lowerLock right' span clock.literal clock.fromStack (lowerExpr file right')) := by
  rcases h.atom with rfl | ⟨hatom, hatom'⟩
  · exact swaps_refl _
  · have stack {e : Expr} (he : e.isAtom = false) :
        lowerLock e span clock.literal clock.fromStack (lowerExpr file e) = (do
          let code ← lowerExpr file e
          pure (code ++ emit span clock.fromStack)) := by
      cases e <;> first | rfl | cases he
    rw [stack hatom, stack hatom']
    exact swaps_snoc ih _

/-- The instruction of a script operand whose index fits. -/
theorem lowerExpr_scriptOperand {e : Expr} (h : isScriptOperand e = true) :
    (∃ span kind, ReadsScript kind ∧ lowerExpr file e = .ok (emit span kind)) ∨
      ∃ error, lowerExpr file e = .error error := by
  unfold isScriptOperand at h
  split at h
  · rename_i root index span' span'' field span
    simp only [Bool.and_eq_true, Bool.or_eq_true, beq_iff_eq] at h
    obtain ⟨hroot, hfield⟩ := h
    by_cases hindex : index ≤ u32Max
    · left
      rcases hroot with hroot | hroot
      · refine ⟨span, .inputScript index, ⟨index, Or.inl rfl⟩, ?_⟩
        simp [lowerExpr, lowerField, indexedObject, hroot, hfield, hindex, indexedKind]
      · refine ⟨span, .outputScript index, ⟨index, Or.inr rfl⟩, ?_⟩
        simp [lowerExpr, lowerField, indexedObject, hroot, hfield, hindex, indexedKind]
    · right
      refine ⟨.unsupported file 1 (span.start + 1) "index exceeds u32", ?_⟩
      simp [lowerExpr, lowerField, indexedObject, hroot, hindex, unsupported]
  · cases h

/-- The operands are single instructions, so either order fails or gives the same three. -/
theorem swaps_equality {key script : Expr} {span : Span} (h : KeyAndScript IsKey key script) :
    Alike (SwapsCode IsKey) (lowerExpr file (.binary key .equal script span))
        (lowerExpr file (.binary script .equal key span)) ∧
      Alike (SwapsCode IsKey) (lowerExpr file (.binary script .equal key span))
        (lowerExpr file (.binary key .equal script span)) := by
  obtain ⟨⟨id, rfl, hkey⟩, hscript⟩ := h
  have hequality (left right : Expr) : lowerExpr file (.binary left .equal right span) = (do
      let l ← lowerExpr file left
      let r ← lowerExpr file right
      pure (l ++ r ++ emit span .equal)) := by
    rw [lowerExpr, lowerBinary, lowerSpecialBinary_eq]
    simp [lockClock, binaryKind]
  rw [hequality, hequality, lowerExpr_ident]
  rcases @lowerExpr_scriptOperand file script hscript with ⟨span', kind, hread, hcode⟩ | ⟨error, hcode⟩
  · rw [hcode]
    have hswap : KeyAndRead IsKey (identKind id.name) kind := ⟨⟨id.name, hkey, rfl⟩, hread⟩
    exact ⟨.swap span (Or.inl hswap) .nil, .swap span (Or.inr hswap) .nil⟩
  · rw [hcode]
    exact ⟨trivial, trivial⟩

theorem swaps_binary {left right : Expr} {op : BinaryOp} {span : Span}
    (ihl : SwapsIn IsKey file left) (ihr : SwapsIn IsKey file right) :
    SwapsIn IsKey file (.binary left op right span) := by
  intro e' h
  rcases h with ⟨left', right', rfl, hleft, hright⟩ | ⟨rfl, rfl, hkey | hkey⟩
  · rw [lowerExpr, lowerExpr, lowerBinary, lowerBinary, lowerSpecialBinary_eq,
      lowerSpecialBinary_eq, lockClock_swapped op hleft]
    cases lockClock left op with
    | some clock => exact swaps_lock clock hright (ihr right' hright)
    | none =>
      apply (ihl left' hleft).bind
      intro a b hab
      apply (ihr right' hright).bind
      intro c d hcd
      exact alike_pure ((hab.append hcd).append (.refl _))
  · exact (swaps_equality hkey).1
  · exact (swaps_equality hkey).2

theorem Expr.Swapped.atom_right {e e' : Expr} (h : e.Swapped IsKey e') (hatom : e'.isAtom = true) :
    e = e' := by
  rcases h.atom with rfl | ⟨_, hnot⟩
  · rfl
  · rw [hatom] at hnot
    cases hnot

theorem lowerIndexCall_compound {e : Expr} {rest : List Expr} {span : Span}
    (h : e.isAtom = false) : lowerIndexCall file (e :: rest) span =
      unsupported file span "input/output index must be an integer literal" := by
  cases e <;> first | rfl | cases h

theorem lowerIndexCall_swapped {args args' : List Expr} {span : Span}
    (h : SwappedEach IsKey args args') :
    lowerIndexCall file args' span = lowerIndexCall file args span := by
  cases args with
  | nil => rw [h]
  | cons e rest =>
    obtain ⟨e', rest', rfl, he, _⟩ := h
    rcases he.atom with rfl | ⟨hatom, hatom'⟩
    · cases e' <;> rfl
    · rw [lowerIndexCall_compound hatom, lowerIndexCall_compound hatom']

/-- The outputs that a continuation names are spelled the same. -/
theorem outputCallIndex_swapped {e e' : Expr} (h : e.Swapped IsKey e') :
    outputCallIndex e' = outputCallIndex e := by
  have hnone {callee : Expr} {args : List Expr} {span : Span}
      (hno : ¬ ∃ id value span', callee = .ident id ∧ args = [.integer value span']) :
      outputCallIndex (.call callee args span) = none := by
    unfold outputCallIndex
    split
    · rename_i heq
      cases heq
      exact absurd ⟨_, _, _, rfl, rfl⟩ hno
    · rfl
  cases e with
  | call callee args span =>
    obtain ⟨callee', args', rfl, hcallee, hargs⟩ := h
    by_cases hindex : ∃ id value span', callee = .ident id ∧ args = [.integer value span']
    · obtain ⟨id, value, span', rfl, rfl⟩ := hindex
      obtain ⟨e', rfl, he⟩ := swappedEach_singleton hargs
      have hcallee' : callee' = .ident id := hcallee
      have he' : e' = .integer value span' := he
      rw [hcallee', he']
    · rw [hnone hindex, hnone]
      intro hindex'
      obtain ⟨id, value, span', rfl, rfl⟩ := hindex'
      obtain rfl := hcallee.atom_right rfl
      apply hindex
      cases args with
      | nil => cases hargs
      | cons e rest =>
        obtain ⟨e', rest', hlist, he, hrest⟩ := hargs
        obtain ⟨rfl, rfl⟩ := List.cons.inj hlist
        cases rest with
        | nil =>
          obtain rfl := he.atom_right rfl
          exact ⟨id, value, span', rfl, rfl⟩
        | cons e₂ rest =>
          obtain ⟨_, _, hnil, _⟩ := hrest
          cases hnil
  | ident | integer | string | bool => rw [h]
  | array | unary | field =>
    obtain ⟨_, rfl, _⟩ := h
    rfl
  | binary =>
    rcases h with ⟨_, _, rfl, _⟩ | ⟨rfl, _⟩
    · rfl
    · rfl

theorem getElem?_swapped {es es' : List Expr} (h : SwappedEach IsKey es es') (n : Nat) :
    (es[n]? = none ∧ es'[n]? = none) ∨
      ∃ e e', es[n]? = some e ∧ es'[n]? = some e' ∧ e.Swapped IsKey e' := by
  induction es generalizing es' n with
  | nil =>
    rw [SwappedEach] at h
    simp [h]
  | cons e es ih =>
    obtain ⟨e', rest, rfl, he, hrest⟩ := h
    cases n with
    | zero => exact Or.inr ⟨e, e', rfl, rfl, he⟩
    | succ n => simpa using ih hrest n

theorem lowerContinuation_swapped {args args' : List Expr} {span : Span}
    (h : SwappedEach IsKey args args') :
    lowerContinuation file args' span = lowerContinuation file args span := by
  unfold lowerContinuation
  rcases getElem?_swapped h 1 with ⟨hnone, hnone'⟩ | ⟨e, e', he, he', hswap⟩
  · rw [hnone, hnone']
  · rw [he, he', Option.bind_some, Option.bind_some, outputCallIndex_swapped hswap]

theorem head?_swapped {es es' : List Expr} (h : SwappedEach IsKey es es') {e : Expr}
    (hatom : e.isAtom = true) : es'.head? = some e ↔ es.head? = some e := by
  cases es with
  | nil => rw [h]
  | cons first rest =>
    obtain ⟨first', rest', rfl, hfirst, _⟩ := h
    rcases hfirst.atom with rfl | ⟨hnot, hnot'⟩
    · rfl
    · simp only [List.head?_cons, Option.some.injEq]
      constructor
      · intro heq
        rw [heq, hatom] at hnot'
        cases hnot'
      · intro heq
        rw [heq, hatom] at hnot
        cases hnot

theorem length_swappedEach {es es' : List Expr} (h : SwappedEach IsKey es es') :
    es'.length = es.length := by
  induction es generalizing es' with
  | nil => rw [h]
  | cons e es ih =>
    obtain ⟨e', rest, rfl, _, hrest⟩ := h
    rw [List.length_cons, List.length_cons, ih hrest]

theorem multisigKeyCount_swapped {args args' : List Expr} (h : SwappedEach IsKey args args') :
    multisigKeyCount args' = multisigKeyCount args := by
  cases args with
  | nil => rw [h]
  | cons first rest =>
    obtain ⟨first', rest', rfl, _, hrest⟩ := h
    cases rest with
    | nil => rw [hrest, multisigKeyCount, multisigKeyCount] <;> simp
    | cons keys rest =>
      obtain ⟨keys', rest', rfl, hkeys, _⟩ := hrest
      cases keys with
      | array elements span =>
        obtain ⟨elements', rfl, helements⟩ := hkeys
        rw [multisigKeyCount, multisigKeyCount, length_swappedEach helements]
      | ident | integer | string | bool =>
        rw [hkeys]
        rfl
      | unary | field =>
        obtain ⟨_, rfl, _⟩ := hkeys
        rfl
      | call =>
        obtain ⟨_, _, rfl, _⟩ := hkeys
        rfl
      | binary =>
        rcases hkeys with ⟨_, _, rfl, _⟩ | ⟨rfl, _⟩
        · rfl
        · rfl

theorem swaps_multisig {args args' : List Expr} {span : Span} (h : SwappedEach IsKey args args')
    (ih : List.Forall₂ (Alike (SwapsCode IsKey)) (lowerEach file args) (lowerEach file args')) :
    Alike (SwapsCode IsKey) (lowerMultisig file args span (lowerEach file args))
      (lowerMultisig file args' span (lowerEach file args')) := by
  unfold lowerMultisig
  by_cases hinteger : ∃ required span', args.head? = some (.integer required span')
  · obtain ⟨required, span', hrequired⟩ := hinteger
    rw [hrequired, (head?_swapped h rfl).mpr hrequired]
    simp only [multisigKeyCount_swapped h]
    split_ifs
    · apply (swaps_get ih 2).bind
      intro a b hab
      apply (swaps_get ih 1).bind
      intro c d hcd
      exact alike_pure (((hab.append (.refl _)).append hcd).append (.refl _))
    · exact swaps_refl _
  · have herror {es : List Expr} (hno : ∀ required span', es.head? ≠ some (.integer required span'))
        (loweredArgs : List Lowered) : lowerMultisig file es span loweredArgs =
          unsupported file span "multisig k must be an integer literal" := by
      unfold lowerMultisig
      split
      · rename_i heq
        exact absurd heq (hno _ _)
      · rfl
    change Alike (SwapsCode IsKey) (lowerMultisig file args span (lowerEach file args))
      (lowerMultisig file args' span (lowerEach file args'))
    rw [herror fun required span' heq => hinteger ⟨required, span', heq⟩,
      herror fun required span' heq => hinteger ⟨required, span', (head?_swapped h rfl).mp heq⟩]
    exact swaps_refl _

theorem swaps_first {xs ys : List Lowered} {span : Span} {kind : InstructionKind}
    (h : List.Forall₂ (Alike (SwapsCode IsKey)) xs ys) :
    Alike (SwapsCode IsKey) (lowerFirst xs span kind) (lowerFirst ys span kind) :=
  swaps_snoc (swaps_join (List.forall₂_take 1 h)) _

theorem swaps_unrecognized {x y : Lowered} {xs ys : List Lowered}
    (hcallee : Alike (SwapsCode IsKey) x y) (hargs : List.Forall₂ (Alike (SwapsCode IsKey)) xs ys) :
    Alike (SwapsCode IsKey)
      (do let code ← x
          let rest ← joinAll xs
          pure (code ++ rest) : Lowered)
      (do let code ← y
          let rest ← joinAll ys
          pure (code ++ rest) : Lowered) := by
  apply hcallee.bind
  intro a b hab
  apply (swaps_join hargs).bind
  intro c d hcd
  exact alike_pure (hab.append hcd)

theorem isBuiltinCallee_swapped {e e' : Expr} (h : e.Swapped IsKey e') :
    isBuiltinCallee e' = isBuiltinCallee e := by
  cases e with
  | ident | integer | string | bool => rw [h]
  | array | unary | field =>
    obtain ⟨_, rfl, _⟩ := h
    rfl
  | call =>
    obtain ⟨_, _, rfl, _⟩ := h
    rfl
  | binary =>
    rcases h with ⟨_, _, rfl, _⟩ | ⟨rfl, _⟩
    · rfl
    · rfl

theorem swaps_call {callee : Expr} {args : List Expr} {span : Span}
    (ihc : SwapsIn IsKey file callee)
    (ihobject : ∀ object field span', callee = .field object field span' →
      SwapsIn IsKey file object)
    (ih : ∀ arg ∈ args, SwapsIn IsKey file arg) :
    SwapsIn IsKey file (.call callee args span) := by
  intro e' h
  obtain ⟨callee', args', rfl, hcallee, hargs⟩ := h
  have heach := swaps_each hargs ih
  have hself := ihc callee' hcallee
  cases callee with
  | field object field span' =>
    obtain ⟨object', rfl, hobject⟩ := hcallee
    have hreceiver := ihobject object field span' rfl object' hobject
    rw [lowerExpr, lowerExpr]
    simp only [lowerCall]
    split_ifs
    · apply hreceiver.bind
      intro a b hab
      apply (swaps_join (List.forall₂_take 1 heach)).bind
      intro c d hcd
      exact alike_pure ((hab.append hcd).append (.refl _))
    · exact swaps_unrecognized hself heach
  | ident id =>
    obtain rfl : callee' = .ident id := hcallee
    rw [lowerExpr_call _ _ (by simp), lowerExpr_call _ _ (by simp)]
    simp only [lowerCall]
    split
    · rw [lowerIndexCall_swapped hargs]
      exact swaps_refl _
    · rw [lowerIndexCall_swapped hargs]
      exact swaps_refl _
    · rw [lowerContinuation_swapped hargs]
      exact swaps_refl _
    · exact swaps_multisig hargs heach
    · exact swaps_first heach
    · exact swaps_first heach
    · exact swaps_first heach
    · exact swaps_first heach
    · exact swaps_unrecognized hself heach
  | _ =>
    rw [lowerExpr_unrecognized rfl, lowerExpr_unrecognized (isBuiltinCallee_swapped hcallee)]
    exact swaps_unrecognized hself heach

/-- What is indexed like a builtin stays so, with the index it had. -/
theorem indexedObject_swapped {object object' : Expr} (h : object.Swapped IsKey object') :
    (indexedObject object = none ∧ indexedObject object' = none) ∨
      ∃ root args args', indexedObject object = some (root, args) ∧
        indexedObject object' = some (root, args') ∧ SwappedEach IsKey args args' := by
  cases object with
  | call callee args span =>
    obtain ⟨callee', args', rfl, hcallee, hargs⟩ := h
    rcases hcallee.atom with rfl | ⟨hatom, hatom'⟩
    · cases callee' with
      | ident id =>
        simp only [indexedObject]
        split_ifs
        · exact Or.inr ⟨_, _, _, rfl, rfl, hargs⟩
        · exact Or.inl ⟨rfl, rfl⟩
      | _ => exact Or.inl ⟨rfl, rfl⟩
    · have hnone {callee : Expr} (hcallee : callee.isAtom = false) (args : List Expr) :
          indexedObject (.call callee args span) = none := by
        cases callee <;> first | rfl | cases hcallee
      exact Or.inl ⟨hnone hatom args, hnone hatom' args'⟩
  | ident | integer | string | bool =>
    rw [h]
    exact Or.inl ⟨rfl, rfl⟩
  | array | unary | field =>
    obtain ⟨_, rfl, _⟩ := h
    exact Or.inl ⟨rfl, rfl⟩
  | binary =>
    rcases h with ⟨_, _, rfl, _⟩ | ⟨rfl, _⟩
    · exact Or.inl ⟨rfl, rfl⟩
    · exact Or.inl ⟨rfl, rfl⟩

theorem swaps_field {object : Expr} {field : Ident} {span : Span}
    (ih : SwapsIn IsKey file object) : SwapsIn IsKey file (.field object field span) := by
  intro e' h
  obtain ⟨object', rfl, hobject⟩ := h
  rw [lowerExpr, lowerExpr]
  unfold lowerField
  rcases indexedObject_swapped hobject with ⟨hnone, hnone'⟩ | ⟨root, args, args', hsome, hsome', hargs⟩
  · have hpath (path : List String) : isPath object' path = isPath object path := by
      unfold isPath
      rw [collectPath_swapped hobject]
    rw [hnone, hnone']
    simp only
    rw [hpath, hpath]
    split_ifs
    · exact swaps_refl _
    · exact swaps_refl _
    · exact swaps_snoc (ih object' hobject) _
  · rw [hsome, hsome']
    cases args with
    | nil =>
      rw [hargs]
      exact swaps_refl _
    | cons e rest =>
      obtain ⟨e', rest', rfl, he, _⟩ := hargs
      rcases he.atom with rfl | ⟨hatom, hatom'⟩
      · cases e' <;> exact swaps_refl _
      · have herror {e : Expr} (he : e.isAtom = false) : (∀ index span', e ≠ .integer index span') := by
          intro index span' heq
          rw [heq] at he
          cases he
        split <;> split <;> simp_all [Alike, unsupported]

/-- Swapping operands of equalities between keys and scripts swaps their two instructions and
nothing else of the code. -/
theorem swapsIn (e : Expr) : SwapsIn IsKey file e := by
  suffices hboth : SwapsIn IsKey file e ∧ ∀ object field span, e = .field object field span →
      SwapsIn IsKey file object from hboth.1
  induction e using Expr.induct with
  | ident | integer | string | bool =>
    refine ⟨?_, by simp⟩
    intro e' h
    rw [h]
    exact swaps_refl _
  | array elements span ih =>
    refine ⟨?_, by simp⟩
    intro e' h
    obtain ⟨elements', rfl, helements⟩ := h
    rw [lowerExpr, lowerExpr]
    exact swaps_join (swaps_each helements fun e he => (ih e he).1)
  | unary op e span ih =>
    refine ⟨?_, by simp⟩
    intro e' h
    obtain ⟨inner, rfl, hinner⟩ := h
    rw [lowerExpr, lowerExpr]
    apply (ih.1 inner hinner).bind
    intro a b hab
    cases op with
    | not => exact alike_pure (hab.append (.refl _))
    | negate => trivial
  | binary left op right span ihl ihr => exact ⟨swaps_binary ihl.1 ihr.1, by simp⟩
  | call callee args span ihc ih =>
    exact ⟨swaps_call ihc.1 ihc.2 fun arg harg => (ih arg harg).1, by simp⟩
  | field object field span ih =>
    refine ⟨swaps_field ih.1, ?_⟩
    intro object' field' span' heq
    cases heq
    exact ih.1

theorem swaps_stmt {stmt stmt' : Stmt} (h : stmt.Swapped IsKey stmt') :
    Alike (SwapsCode IsKey) (lowerStmt file stmt) (lowerStmt file stmt') := by
  cases stmt with
  | «let» | require =>
    obtain ⟨e', rfl, he⟩ := h
    exact swaps_snoc (swapsIn _ e' he) _
  | «return» e span =>
    obtain ⟨e', rfl, he⟩ := h
    exact swapsIn _ e' he

/-- The code of a spend with swapped operands. -/
theorem swaps_spend {spend spend' : Spend} (h : spend.Swapped IsKey spend') {lowered lowered' : IrSpend}
    (hlower : lowerSpend file spend = .ok lowered) (hlower' : lowerSpend file spend' = .ok lowered') :
    lowered'.name = lowered.name ∧ lowered'.params = lowered.params ∧
      SwapsCode IsKey lowered.instructions lowered'.instructions := by
  obtain ⟨body, rfl, hbody⟩ := h
  obtain ⟨hname, hparams, hcode⟩ := lowerSpend_eq_ok hlower
  obtain ⟨hname', hparams', hcode'⟩ := lowerSpend_eq_ok hlower'
  refine ⟨hname'.trans hname.symm, hparams'.trans hparams.symm, ?_⟩
  have heach : List.Forall₂ (Alike (SwapsCode IsKey)) (spend.body.map (lowerStmt file))
      (body.map (lowerStmt file)) := by
    rw [List.forall₂_map_left_iff, List.forall₂_map_right_iff]
    exact hbody.imp fun stmt stmt' hstmt => swaps_stmt hstmt
  exact (swaps_join heach).of_ok hcode hcode'

end

end KaspaScript
