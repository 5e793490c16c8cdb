import KaspaScript.Ir.Lowers
import KaspaScript.Ir.Total

namespace KaspaScript

open Checker
open Library (Alike alike_pure alike_refl alike_joinAll joinAll)

/-- A value that a program can write where it names a parameter. -/
inductive Literal where
  | integer (value : Nat)
  | bool (value : Bool)
  | string (value : String)
  deriving DecidableEq, Repr

def Literal.expr : Literal → Span → Expr
  | .integer value, span => .integer value span
  | .bool value, span => .bool value span
  | .string value, span => .string value span

def Literal.value : Literal → Value
  | .integer value => .integer value
  | .bool value => .bool value
  | .string value => .string value

mutual

/-- The expression with a literal for every node that names `p`. -/
def Expr.substitute (p : String) (literal : Literal) : Expr → Expr
  | .ident id => if id.name = p then literal.expr id.span else .ident id
  | .integer value span => .integer value span
  | .string value span => .string value span
  | .bool value span => .bool value span
  | .array elements span => .array (substituteEach p literal elements) span
  | .unary op e span => .unary op (e.substitute p literal) span
  | .binary left op right span =>
      .binary (left.substitute p literal) op (right.substitute p literal) span
  | .call callee args span =>
      .call (callee.substitute p literal) (substituteEach p literal args) span
  | .field object field span => .field (object.substitute p literal) field span

def substituteEach (p : String) (literal : Literal) : List Expr → List Expr
  | [] => []
  | e :: rest => e.substitute p literal :: substituteEach p literal rest

end

attribute [grind =] Expr.substitute substituteEach

def Stmt.substitute (p : String) (literal : Literal) : Stmt → Stmt
  | .let name e span => .let name (e.substitute p literal) span
  | .require e span => .require (e.substitute p literal) span
  | .return e span => .return (e.substitute p literal) span

def Spend.substitute (p : String) (literal : Literal) (spend : Spend) : Spend :=
  { spend with body := spend.body.map (Stmt.substitute p literal) }

def Contract.substitute (p : String) (literal : Literal) (contract : Contract) : Contract :=
  { contract with spends := contract.spends.map (Spend.substitute p literal) }

@[simp] theorem length_substituteEach (p : String) (literal : Literal) (es : List Expr) :
    (substituteEach p literal es).length = es.length := by
  induction es with
  | nil => rfl
  | cons e es ih => simp [substituteEach, ih]

/-- The name a node accesses a field of, or calls. -/
def Expr.headName : Expr → Option String
  | .field (.ident id) _ _ | .call (.ident id) _ _ => some id.name
  | _ => none

/-- No field is accessed of `p` and `p` is not called. -/
def NeverHead (p : String) (e : Expr) : Prop := ∀ node ∈ e.nodes, node.headName ≠ some p

/-- A name the lowering gives no meaning of its own. -/
def IsPlainName (p : String) : Prop := p ∉ builtinNames ∧ p ∉ builtinCallNames

/-- Instructions for the pushes of a symbol: the literal's push, or a lock check that has it as its
bound. -/
inductive Substituted (p : String) (literal : Literal) : List Instruction → List Instruction → Prop
  | nil : Substituted p literal [] []
  | same {a b} (instruction : Instruction) : Substituted p literal a b →
      Substituted p literal (instruction :: a) (instruction :: b)
  | value {a b} (span : Span) : Substituted p literal a b →
      Substituted p literal (⟨span, .push (.symbol p)⟩ :: a) (⟨span, .push literal.value⟩ :: b)
  | lock {a b} {n : Nat} (clock : LockClock) (span span' : Span) : literal = .integer n →
      Substituted p literal a b →
      Substituted p literal (⟨span, .push (.symbol p)⟩ :: ⟨span', clock.fromStack⟩ :: a)
        (⟨span', clock.literal n⟩ :: b)

namespace Substituted

variable {p : String} {literal : Literal}

theorem refl (code : List Instruction) : Substituted p literal code code := by
  induction code with
  | nil => exact .nil
  | cons instruction code ih => exact .same instruction ih

theorem append {a b c d : List Instruction} (h : Substituted p literal a b)
    (h' : Substituted p literal c d) : Substituted p literal (a ++ c) (b ++ d) := by
  induction h with
  | nil => exact h'
  | same instruction _ ih => exact .same instruction ih
  | value span _ ih => exact .value span ih
  | lock clock span span' hn _ ih => exact .lock clock span span' hn ih

end Substituted

section

variable {cx : Checker} {scope : Scope} {file p : String} {literal : Literal}

/-- The two lowerings of an expression fare alike. -/
def SubstitutesIn (file p : String) (literal : Literal) (e : Expr) : Prop :=
  Alike (Substituted p literal) (lowerExpr file e) (lowerExpr file (e.substitute p literal))

theorem lowerExpr_literal (literal : Literal) (span : Span) :
    lowerExpr file (literal.expr span) = .ok (emit span (.push literal.value)) := by
  cases literal <;> rfl

theorem substitutes_of_eq {e : Expr} (h : e.substitute p literal = e) :
    SubstitutesIn file p literal e := by
  unfold SubstitutesIn
  rw [h]
  exact alike_refl Substituted.refl _

theorem lowerExpr_plainName {id : Ident} (hp : IsPlainName id.name) :
    lowerExpr file (.ident id) = .ok (emit id.span (.push (.symbol id.name))) := by
  rw [lowerExpr]
  split
  · simp_all [IsPlainName, builtinNames]
  · simp_all [IsPlainName, builtinNames]
  · rfl

theorem substitutes_ident (hp : IsPlainName p) (id : Ident) :
    SubstitutesIn file p literal (.ident id) := by
  by_cases hid : id.name = p
  · subst hid
    unfold SubstitutesIn
    rw [Expr.substitute, if_pos rfl, lowerExpr_plainName hp, lowerExpr_literal]
    exact .value id.span .nil
  · exact substitutes_of_eq (by rw [Expr.substitute, if_neg hid])

theorem substitutes_each {es : List Expr} (h : ∀ e ∈ es, SubstitutesIn file p literal e) :
    Alike (Substituted p literal) (joinAll (lowerEach file es))
      (joinAll (lowerEach file (substituteEach p literal es))) := by
  apply alike_joinAll .nil Substituted.append
  induction es with
  | nil => exact .nil
  | cons e es ih =>
    rw [List.forall_mem_cons] at h
    exact .cons h.1 (ih h.2)

/-- A path that is special to the lowering is one before the substitution exactly when it is one
after it. -/
theorem isPath_substitute {e : Expr} {path : List String} (hhead : NeverHead p e)
    (hp : path ≠ [p] ∧ path ≠ []) :
    isPath (e.substitute p literal) path = isPath e path := by
  have hnever : ∀ e : Expr, NeverHead p e → (∀ id, e ≠ .ident id) →
      collectPath (e.substitute p literal) = collectPath e := by
    intro e
    induction e using Expr.induct with
    | ident id =>
      intro _ hid
      exact absurd rfl (hid id)
    | field object field span ih =>
      intro hhead _
      rw [Expr.substitute, collectPath, collectPath]
      congr 1
      by_cases hident : ∃ id, object = .ident id
      · obtain ⟨id, rfl⟩ := hident
        have hid : id.name ≠ p := by
          intro hsame
          exact hhead _ (Expr.mem_nodes_self _) (by simp [Expr.headName, hsame])
        rw [Expr.substitute, if_neg hid]
      · apply ih
        · intro node hnode
          exact hhead node (by simp [Expr.nodes, hnode])
        · intro id hid
          exact hident ⟨id, hid⟩
    | _ => intros; rfl
  by_cases hident : ∃ id, e = .ident id
  · obtain ⟨id, rfl⟩ := hident
    by_cases hid : id.name = p
    · have hpath : isPath (.ident id) path = false := by
        simp only [isPath, collectPath, hid, beq_eq_false_iff_ne]
        exact hp.1.symm
      rw [hpath, Expr.substitute, if_pos hid]
      cases literal <;> simp [Literal.expr, isPath, collectPath, hp.2]
    · rw [Expr.substitute, if_neg hid]
  · unfold isPath
    rw [hnever e hhead (fun id hid => hident ⟨id, hid⟩)]

theorem ne_path_of_plain (p : String) (clock : LockClock) :
    clock.path ≠ [p] ∧ clock.path ≠ [] := by
  cases clock <;> simp [LockClock.path]

theorem lockClock_substitute {left : Expr} {op : BinaryOp} (hhead : NeverHead p left) :
    lockClock (left.substitute p literal) op = lockClock left op := by
  unfold lockClock
  rw [isPath_substitute hhead (ne_path_of_plain p .height),
    isPath_substitute hhead (ne_path_of_plain p .time)]

theorem substitutes_lock {right : Expr} {span : Span} (clock : LockClock) (hp : IsPlainName p)
    (h : SubstitutesIn file p literal right) :
    Alike (Substituted p literal)
      (lowerLock right span clock.literal clock.fromStack (lowerExpr file right))
      (lowerLock (right.substitute p literal) span clock.literal clock.fromStack
        (lowerExpr file (right.substitute p literal))) := by
  -- with a bound that is no literal after the substitution either, both leave it on the stack
  have stack {e e' : Expr} (he : isIntegerLiteral e = false) (he' : isIntegerLiteral e' = false)
      (h : Alike (Substituted p literal) (lowerExpr file e) (lowerExpr file e')) :
      Alike (Substituted p literal)
        (lowerLock e span clock.literal clock.fromStack (lowerExpr file e))
        (lowerLock e' span clock.literal clock.fromStack (lowerExpr file e')) := by
    have hlower {e : Expr} (he : isIntegerLiteral e = false) :
        lowerLock e span clock.literal clock.fromStack (lowerExpr file e) = (do
          let code ← lowerExpr file e
          pure (code ++ emit span clock.fromStack)) := by
      cases e <;> first | rfl | cases he
    rw [hlower he, hlower he']
    apply h.bind
    intro a b hab
    exact alike_pure (hab.append (.refl _))
  cases right with
  | integer value span' => exact alike_refl Substituted.refl _
  | ident id =>
    by_cases hid : id.name = p
    · subst hid
      unfold SubstitutesIn at h
      rw [Expr.substitute, if_pos rfl] at h ⊢
      cases literal with
      | integer n =>
        rw [lowerExpr_plainName hp]
        exact .lock clock id.span span rfl .nil
      | bool value => exact stack rfl rfl h
      | string value => exact stack rfl rfl h
    · rw [Expr.substitute, if_neg hid]
      exact stack rfl rfl (alike_refl Substituted.refl _)
  | _ => exact stack rfl rfl h

theorem substitutes_binary {left right : Expr} {op : BinaryOp} {span : Span} (hp : IsPlainName p)
    (hhead : NeverHead p left) (hleft : SubstitutesIn file p literal left)
    (hright : SubstitutesIn file p literal right) :
    SubstitutesIn file p literal (.binary left op right span) := by
  unfold SubstitutesIn
  rw [Expr.substitute, lowerExpr, lowerExpr, lowerBinary, lowerBinary, lowerSpecialBinary_eq,
    lowerSpecialBinary_eq, lockClock_substitute hhead]
  cases lockClock left op with
  | some clock => exact substitutes_lock clock hp hright
  | none =>
    apply hleft.bind
    intro a b hab
    apply hright.bind
    intro c d hcd
    exact alike_pure ((hab.append hcd).append (.refl _))

theorem substitutes_unary {op : UnaryOp} {e : Expr} {span : Span}
    (h : SubstitutesIn file p literal e) : SubstitutesIn file p literal (.unary op e span) := by
  unfold SubstitutesIn
  rw [Expr.substitute, lowerExpr, lowerExpr]
  apply h.bind
  intro a b hab
  cases op with
  | not => exact alike_pure (hab.append (.refl _))
  | negate => trivial

theorem substitutes_array {elements : List Expr} {span : Span}
    (h : ∀ e ∈ elements, SubstitutesIn file p literal e) :
    SubstitutesIn file p literal (.array elements span) := by
  unfold SubstitutesIn
  rw [Expr.substitute, lowerExpr, lowerExpr]
  exact substitutes_each h

theorem lowerExpr_call {callee : Expr} (args : List Expr) (span : Span)
    (hcallee : ∀ object field span', callee ≠ .field object field span') :
    lowerExpr file (.call callee args span) =
      lowerCall file callee args span (.ok []) (lowerExpr file callee) (lowerEach file args) := by
  cases callee with
  | field object field span' => exact absurd rfl (hcallee object field span')
  | _ => rfl

/-- A call that is no builtin's is lowered callee first, then its arguments. -/
theorem lowerExpr_unrecognized {callee : Expr} {args : List Expr} {span : Span}
    (hcallee : isBuiltinCallee callee = false) :
    lowerExpr file (.call callee args span) = (do
      let code ← lowerExpr file callee
      let rest ← joinAll (lowerEach file args)
      pure (code ++ rest)) := by
  cases callee with
  | field object field span' =>
    have hfield : field.name ≠ "verify" := by simpa [isBuiltinCallee] using hcallee
    conv_lhs => rw [lowerExpr]
    simp only [lowerCall, if_neg hfield]
  | ident id =>
    rw [lowerExpr_call args span (by simp)]
    simp only [lowerCall]
    split <;> first | rfl | simp_all [isBuiltinCallee, builtinCallNames]
  | _ =>
    rw [lowerExpr_call args span (by simp)]
    rfl

theorem isBuiltinCallee_substitute {callee : Expr} (hhead : ∀ id, callee = .ident id → id.name ≠ p) :
    isBuiltinCallee (callee.substitute p literal) = isBuiltinCallee callee := by
  cases callee with
  | ident id => rw [Expr.substitute, if_neg (hhead id rfl)]
  | _ => rfl

theorem substitutes_unrecognized {callee : Expr} {args : List Expr} {span : Span}
    (hcallee : isBuiltinCallee callee = false) (hhead : ∀ id, callee = .ident id → id.name ≠ p)
    (h : SubstitutesIn file p literal callee)
    (hargs : ∀ arg ∈ args, SubstitutesIn file p literal arg) :
    SubstitutesIn file p literal (.call callee args span) := by
  unfold SubstitutesIn
  rw [Expr.substitute, lowerExpr_unrecognized hcallee,
    lowerExpr_unrecognized (by rw [isBuiltinCallee_substitute hhead, hcallee])]
  apply h.bind
  intro a b hab
  apply (substitutes_each hargs).bind
  intro c d hcd
  exact alike_pure (hab.append hcd)

theorem substitutes_first {arg : Expr} {span : Span} {kind : InstructionKind}
    (h : SubstitutesIn file p literal arg) :
    Alike (Substituted p literal) (lowerFirst (lowerEach file [arg]) span kind)
      (lowerFirst (lowerEach file [arg.substitute p literal]) span kind) := by
  have heach : Alike (Substituted p literal) (joinAll ((lowerEach file [arg]).take 1))
      (joinAll ((lowerEach file [arg.substitute p literal]).take 1)) := by
    simp only [lowerEach, List.take_succ_cons, List.take_zero, Library.joinAll_singleton]
    exact h
  unfold lowerFirst
  apply heach.bind
  intro a b hab
  exact alike_pure (hab.append (.refl _))

theorem multisigKeyCount_substitute (required : Nat) (span : Span) (keys signatures : Expr) :
    multisigKeyCount [.integer required span, keys.substitute p literal,
        signatures.substitute p literal] =
      multisigKeyCount [.integer required span, keys, signatures] := by
  cases keys with
  | array elements span' => simp [Expr.substitute, multisigKeyCount]
  | ident id =>
    rw [Expr.substitute]
    split_ifs
    · cases literal <;> rfl
    · rfl
  | _ => rfl

theorem substitutes_multisig {required : Nat} {keys signatures : Expr} {span span' : Span}
    (hkeys : SubstitutesIn file p literal keys)
    (hsignatures : SubstitutesIn file p literal signatures) :
    Alike (Substituted p literal)
      (lowerMultisig file [.integer required span', keys, signatures] span
        (lowerEach file [.integer required span', keys, signatures]))
      (lowerMultisig file [.integer required span', keys.substitute p literal,
          signatures.substitute p literal] span
        (lowerEach file [.integer required span', keys.substitute p literal,
          signatures.substitute p literal])) := by
  simp only [lowerMultisig, List.head?_cons, lowerEach, List.getElem?_cons_succ,
    List.getElem?_cons_zero, Option.toList_some, Library.joinAll_singleton,
    multisigKeyCount_substitute]
  split_ifs
  · apply hsignatures.bind
    intro a b hab
    apply hkeys.bind
    intro c d hcd
    exact alike_pure (((hab.append (.refl _)).append hcd).append (.refl _))
  · trivial

theorem substitute_outputCall {e : Expr} {index : Nat} (hp : IsPlainName p)
    (h : outputCallIndex e = some index) : e.substitute p literal = e := by
  unfold outputCallIndex at h
  split at h
  · rename_i id value span span'
    split_ifs at h with hid
    have hname : id.name ≠ p := by
      intro hsame
      apply hp.1
      rw [← hsame, hid.1]
      decide
    simp [Expr.substitute, substituteEach, hname]
  · cases h

theorem substitutes_callForm {callee : Expr} {args : List Expr} {span : Span}
    (hform : CallForm cx scope callee args) (hp : IsPlainName p)
    (hhead : ∀ id, callee = .ident id → id.name ≠ p)
    (ihc : cx.Accepts scope callee → SubstitutesIn file p literal callee)
    (ihobject : ∀ object field span', callee = .field object field span' →
      cx.Accepts scope object → SubstitutesIn file p literal object)
    (ih : ∀ arg ∈ args, cx.Accepts scope arg → SubstitutesIn file p literal arg) :
    SubstitutesIn file p literal (.call callee args span) := by
  cases hform with
  | verify hfield hobject _ hkey _ =>
    have hreceiver := ihobject _ _ _ rfl hobject
    have hargument := ih _ (by simp) hkey
    unfold SubstitutesIn
    rw [Expr.substitute, Expr.substitute, lowerExpr, lowerExpr]
    simp only [lowerCall, if_pos hfield, lowerEach, substituteEach, List.take_succ_cons,
      List.take_zero, Library.joinAll_singleton]
    apply hreceiver.bind
    intro a b hab
    apply hargument.bind
    intro c d hcd
    exact alike_pure ((hab.append hcd).append (.refl _))
  | index hid hvalue =>
    apply substitutes_of_eq
    simp [Expr.substitute, substituteEach, hhead _ rfl]
  | continuation hid _ houtput =>
    apply substitutes_of_eq
    rw [Expr.substitute, Expr.substitute, if_neg (hhead _ rfl), substituteEach, substituteEach,
      substituteEach, Expr.substitute, substitute_outputCall hp houtput]
  | proof hid hproof _ =>
    unfold SubstitutesIn
    rw [Expr.substitute, Expr.substitute, if_neg (hhead _ rfl), lowerExpr_call _ _ (by simp),
      lowerExpr_call _ _ (by simp)]
    simp only [lowerCall, hid, substituteEach]
    exact substitutes_first (ih _ (by simp) hproof)
  | hash hid harg =>
    unfold SubstitutesIn
    rw [Expr.substitute, Expr.substitute, if_neg (hhead _ rfl), lowerExpr_call _ _ (by simp),
      lowerExpr_call _ _ (by simp)]
    have hargument := ih _ (by simp) harg
    rcases hid with hid | hid | hid <;> simp only [lowerCall, hid, substituteEach]
    · exact substitutes_first hargument
    · exact substitutes_first hargument
    · exact substitutes_first hargument
  | @multisig id required span' keys signatures hid hle hkeys hsignatures =>
    unfold SubstitutesIn
    rw [Expr.substitute, Expr.substitute, if_neg (hhead _ rfl), lowerExpr_call _ _ (by simp),
      lowerExpr_call _ _ (by simp)]
    simp only [lowerCall, hid, substituteEach]
    exact substitutes_multisig (ih keys (by simp) hkeys) (ih signatures (by simp) hsignatures)
  | other hcallee haccepts hargs =>
    exact substitutes_unrecognized hcallee hhead (ihc haccepts)
      fun arg harg => ih arg harg (hargs arg harg)

/-- An object that is indexed like a builtin stays one and becomes none. -/
theorem indexedObject_substitute {object : Expr} (hhead : ∀ id args span,
      object = .call (.ident id) args span → id.name ≠ p) :
    indexedObject (object.substitute p literal) =
      (indexedObject object).map fun indexed => (indexed.1, substituteEach p literal indexed.2) := by
  cases object with
  | ident id =>
    rw [Expr.substitute]
    split_ifs
    · cases literal <;> rfl
    · rfl
  | call callee args span =>
    cases callee with
    | ident id =>
      rw [Expr.substitute, Expr.substitute, if_neg (hhead id args span rfl)]
      simp only [indexedObject]
      split_ifs <;> rfl
    | _ => rfl
  | _ => rfl

theorem substitutes_field {object : Expr} {field : Ident} {span : Span}
    (hform : FieldForm cx scope field object) (hp : IsPlainName p)
    (hhead : NeverHead p (.field object field span))
    (ih : cx.Accepts scope object → SubstitutesIn file p literal object) :
    SubstitutesIn file p literal (.field object field span) := by
  have hobjectHead : NeverHead p object := by
    intro node hnode
    exact hhead node (by simp [Expr.nodes, hnode])
  have hroot : ∀ root, object = .ident root → root.name ≠ p := by
    intro root hobject hsame
    subst hobject
    exact hhead _ (Expr.mem_nodes_self _) (by simp [Expr.headName, hsame])
  have rooted (root : Ident) (hobject : object = .ident root) :
      SubstitutesIn file p literal (.field object field span) := by
    apply substitutes_of_eq
    have hname := hroot root hobject
    subst hobject
    rw [Expr.substitute, Expr.substitute, if_neg hname]
  cases hform with
  | clock _ _ => exact rooted _ rfl
  | depth _ _ => exact rooted _ rfl
  | sequencing _ => exact rooted _ rfl
  | access _ haccepts _ =>
    have hcalled : ∀ id args span', object = .call (.ident id) args span' → id.name ≠ p := by
      intro id args span' hobject hsame
      subst hobject
      exact hobjectHead _ (Expr.mem_nodes_self _) (by simp [Expr.headName, hsame])
    have hindexed := @indexedObject_substitute p literal object hcalled
    unfold SubstitutesIn
    rw [Expr.substitute, lowerExpr, lowerExpr]
    unfold lowerField
    cases hobject : indexedObject object with
    | some indexed =>
      obtain ⟨root, args⟩ := indexed
      obtain ⟨value, span', rfl, _⟩ := accepts_indexedObject hobject haccepts
      rw [hobject] at hindexed
      simp only [hindexed, Option.map_some, substituteEach, Expr.substitute]
      exact alike_refl Substituted.refl _
    | none =>
      rw [hobject] at hindexed
      have hcovenant : ["covenant_id"] ≠ [p] ∧ ["covenant_id"] ≠ [] := by
        refine ⟨?_, by simp⟩
        intro hsame
        apply hp.1
        rw [← List.singleton_inj.mp hsame]
        decide
      have hsequencing : ["sequencing"] ≠ [p] ∧ ["sequencing"] ≠ [] := by
        refine ⟨?_, by simp⟩
        intro hsame
        apply hp.1
        rw [← List.singleton_inj.mp hsame]
        decide
      simp only [hindexed, Option.map_none, isPath_substitute hobjectHead hcovenant,
        isPath_substitute hobjectHead hsequencing]
      split_ifs
      · exact alike_refl Substituted.refl _
      · exact alike_refl Substituted.refl _
      · apply (ih haccepts).bind
        intro a b hab
        exact alike_pure (hab.append (.refl _))

/-- Writing the literal instead of the parameter changes its pushes and the lock checks it bounds,
and nothing else of the code of an accepted expression. -/
theorem substitutesIn_of_accepts (hp : IsPlainName p) (e : Expr) :
    cx.Accepts scope e → NeverHead p e → SubstitutesIn file p literal e := by
  suffices h : (cx.Accepts scope e → NeverHead p e → SubstitutesIn file p literal e) ∧
      ∀ object field span, e = .field object field span → cx.Accepts scope object →
        NeverHead p object → SubstitutesIn file p literal object from h.1
  induction e using Expr.induct with
  | ident id =>
    refine ⟨fun _ _ => substitutes_ident hp id, ?_⟩
    intro object field span h
    cases h
  | integer value span => exact ⟨fun _ _ => substitutes_of_eq rfl, by simp⟩
  | string value span => exact ⟨fun _ _ => substitutes_of_eq rfl, by simp⟩
  | bool value span => exact ⟨fun _ _ => substitutes_of_eq rfl, by simp⟩
  | array elements span ih =>
    refine ⟨?_, by simp⟩
    intro haccepts hhead
    apply substitutes_array
    intro e he
    apply (ih e he).1 (accepts_array.mp haccepts e he)
    intro node hnode
    apply hhead node
    rw [Expr.nodes, List.mem_cons, mem_allNodes]
    exact .inr ⟨e, he, hnode⟩
  | unary op e span ih =>
    refine ⟨?_, by simp⟩
    intro haccepts hhead
    apply substitutes_unary
    apply ih.1 (accepts_unary haccepts).1
    intro node hnode
    exact hhead node (by simp [Expr.nodes, hnode])
  | binary left op right span ihl ihr =>
    refine ⟨?_, by simp⟩
    intro haccepts hhead
    obtain ⟨hleft, hright, _⟩ := accepts_binary haccepts
    have hleftHead : NeverHead p left := by
      intro node hnode
      exact hhead node (by simp [Expr.nodes, hnode])
    have hrightHead : NeverHead p right := by
      intro node hnode
      exact hhead node (by simp [Expr.nodes, hnode])
    exact substitutes_binary hp hleftHead (ihl.1 hleft hleftHead) (ihr.1 hright hrightHead)
  | call callee args span ihc ih =>
    refine ⟨?_, by simp⟩
    intro haccepts hhead
    have hcalleeHead : NeverHead p callee := by
      intro node hnode
      exact hhead node (by simp [Expr.nodes, hnode])
    apply substitutes_callForm (callForm_of_accepts haccepts) hp
    · intro id hcallee hsame
      subst hcallee
      exact hhead _ (Expr.mem_nodes_self _) (by simp [Expr.headName, hsame])
    · intro hcallee
      exact ihc.1 hcallee hcalleeHead
    · intro object field span' hcallee hobject
      apply ihc.2 object field span' hcallee hobject
      intro node hnode
      apply hcalleeHead node
      subst hcallee
      simp [Expr.nodes, hnode]
    · intro arg harg hargAccepts
      apply (ih arg harg).1 hargAccepts
      intro node hnode
      apply hhead node
      rw [Expr.nodes, List.mem_cons, List.mem_append, mem_allNodes]
      exact .inr (.inr ⟨arg, harg, hnode⟩)
  | field object field span ih =>
    constructor
    · intro haccepts hhead
      apply substitutes_field (fieldForm_of_accepts haccepts) hp hhead
      intro hobject
      apply ih.1 hobject
      intro node hnode
      exact hhead node (by simp [Expr.nodes, hnode])
    · intro object' field' span' h hobject hhead
      cases h
      exact ih.1 hobject hhead

theorem collectExprKips_substitute (hp : IsPlainName p) (e : Expr) :
    collectExprKips (e.substitute p literal) = collectExprKips e := by
  have heach {es : List Expr}
      (ih : ∀ e ∈ es, collectExprKips (e.substitute p literal) = collectExprKips e) :
      collectAllKips (substituteEach p literal es) = collectAllKips es := by
    induction es with
    | nil => rfl
    | cons e es ihes =>
      rw [List.forall_mem_cons] at ih
      rw [substituteEach, collectAllKips, collectAllKips, ih.1, ihes ih.2]
  induction e using Expr.induct with
  | ident id =>
    rw [Expr.substitute]
    split_ifs with hid
    · have hnone : collectExprKips (.ident id) = [] := by
        rw [collectExprKips]
        split <;> first | rfl | simp_all [IsPlainName, builtinNames]
      rw [hnone]
      cases literal <;> rfl
    · rfl
  | integer value span => rfl
  | string value span => rfl
  | bool value span => rfl
  | array elements span ih =>
    rw [Expr.substitute, collectExprKips, collectExprKips, heach ih]
  | unary op e span ih => rw [Expr.substitute, collectExprKips, collectExprKips, ih]
  | binary left op right span ihl ihr =>
    rw [Expr.substitute, collectExprKips, collectExprKips, ihl, ihr]
  | call callee args span ihc ih =>
    rw [Expr.substitute, collectExprKips, collectExprKips, ihc, heach ih]
  | field object field span ih => rw [Expr.substitute, collectExprKips, collectExprKips, ih]

/-- The code of one spend against that of the spend with the literal. -/
structure SpendSubstituted (p : String) (literal : Literal) (a b : IrSpend) : Prop where
  name : b.name = a.name
  params : b.params = a.params
  instructions : Substituted p literal a.instructions b.instructions

structure ContractSubstituted (p : String) (literal : Literal) (a b : IrContract) : Prop where
  name : b.name = a.name
  params : b.params = a.params
  spends : List.Forall₂ (SpendSubstituted p literal) a.spends b.spends

theorem substitutes_stmt {stmt : Stmt} (h : SubstitutesIn file p literal stmt.expr) :
    Alike (Substituted p literal) (lowerStmt file stmt)
      (lowerStmt file (stmt.substitute p literal)) := by
  cases stmt with
  | «let» name e span =>
    apply h.bind
    intro a b hab
    exact alike_pure (hab.append (.refl _))
  | require e span =>
    apply h.bind
    intro a b hab
    exact alike_pure (hab.append (.refl _))
  | «return» e span => exact h

theorem substitutes_spend {spend : Spend}
    (h : ∀ stmt ∈ spend.body, SubstitutesIn file p literal stmt.expr) :
    Alike (SpendSubstituted p literal) (lowerSpend file spend)
      (lowerSpend file (spend.substitute p literal)) := by
  have hbody : Alike (Substituted p literal) (joinAll (spend.body.map (lowerStmt file)))
      (joinAll ((spend.substitute p literal).body.map (lowerStmt file))) := by
    apply alike_joinAll .nil Substituted.append
    rw [Spend.substitute, List.map_map, List.forall₂_map_left_iff, List.forall₂_map_right_iff,
      List.forall₂_same]
    intro stmt hstmt
    exact substitutes_stmt (h stmt hstmt)
  apply hbody.bind
  intro a b hab
  exact alike_pure ⟨rfl, rfl, hab⟩

theorem substitutes_contract {contract : Contract}
    (h : ∀ spend ∈ contract.spends, ∀ stmt ∈ spend.body,
      SubstitutesIn file p literal stmt.expr) :
    Alike (ContractSubstituted p literal) (lowerContract file contract)
      (lowerContract file (contract.substitute p literal)) := by
  have hspends : Alike (List.Forall₂ (SpendSubstituted p literal))
      (contract.spends.mapM (lowerSpend file))
      ((contract.substitute p literal).spends.mapM (lowerSpend file)) := by
    apply Library.alike_mapM
    rw [Contract.substitute, List.forall₂_map_right_iff, List.forall₂_same]
    intro spend hspend
    exact substitutes_spend (h spend hspend)
  apply hspends.bind
  intro a b hab
  exact alike_pure ⟨rfl, rfl, hab⟩

end

/-- A contract of a program and the code of the others around it. -/
structure ProgramSubstituted (p : String) (literal : Literal) (before after : List IrContract)
    (lowered lowered' : IrContract) (ir ir' : IrProgram) : Prop where
  contracts : ir.contracts = before ++ lowered :: after
  contracts' : ir'.contracts = before ++ lowered' :: after
  contract : ContractSubstituted p literal lowered lowered'
  kips : ir'.kipRequirements = ir.kipRequirements

theorem kips_substitute {p : String} {literal : Literal} (hp : IsPlainName p)
    (before after : List Contract) (contract : Contract) :
    collectKipRequirements ⟨before ++ contract.substitute p literal :: after⟩ =
      collectKipRequirements ⟨before ++ contract :: after⟩ := by
  have hspend (spend : Spend) : (spend.substitute p literal).body.flatMap
      (fun stmt => collectExprKips stmt.expr) =
        spend.body.flatMap fun stmt => collectExprKips stmt.expr := by
    rw [Spend.substitute, List.flatMap_map]
    congr 1
    funext stmt
    cases stmt <;> exact collectExprKips_substitute hp _
  have hcontract : (contract.substitute p literal).spends.flatMap
      (fun spend => spend.body.flatMap fun stmt => collectExprKips stmt.expr) =
        contract.spends.flatMap fun spend =>
          spend.body.flatMap fun stmt => collectExprKips stmt.expr := by
    rw [Contract.substitute, List.flatMap_map]
    simp only [hspend]
  simp only [collectKipRequirements, List.flatMap_append, List.flatMap_cons, hcontract]

/-- Lowering fails before and after the substitution or neither time, and the code of the other
contracts stays. -/
theorem substitutes_program {p : String} {literal : Literal} (hp : IsPlainName p)
    {before after : List Contract} {contract : Contract} {source file : String}
    (haccepted : ProgramAccepted ⟨before ++ contract :: after⟩ source file)
    (hhead : ∀ spend ∈ contract.spends, ∀ stmt ∈ spend.body, NeverHead p stmt.expr) :
    Alike (fun ir ir' => ∃ others rest lowered lowered',
        before.mapM (lowerContract file) = .ok others ∧
          lowerContract file contract = .ok lowered ∧
          ProgramSubstituted p literal others rest lowered lowered' ir ir')
      (lowerProgram ⟨before ++ contract :: after⟩
        (collectKipRequirements ⟨before ++ contract :: after⟩) file)
      (lowerProgram ⟨before ++ contract.substitute p literal :: after⟩
        (collectKipRequirements ⟨before ++ contract.substitute p literal :: after⟩) file) := by
  have hcontract : Alike (ContractSubstituted p literal) (lowerContract file contract)
      (lowerContract file (contract.substitute p literal)) := by
    apply substitutes_contract
    intro spend hspend stmt hstmt
    have hmem : contract ∈ (⟨before ++ contract :: after⟩ : Program).contracts := by simp
    obtain ⟨scope, haccepts⟩ := haccepted.expr hmem hspend hstmt
    exact substitutesIn_of_accepts hp stmt.expr haccepts (hhead spend hspend stmt hstmt)
  rw [kips_substitute hp]
  have hcontracts : Alike (fun contracts contracts' => ∃ others rest lowered lowered',
      before.mapM (lowerContract file) = .ok others ∧ lowerContract file contract = .ok lowered ∧
        contracts = others ++ lowered :: rest ∧ contracts' = others ++ lowered' :: rest ∧
        ContractSubstituted p literal lowered lowered')
      ((before ++ contract :: after).mapM (lowerContract file))
      ((before ++ contract.substitute p literal :: after).mapM (lowerContract file)) := by
    rw [List.mapM_append, List.mapM_append, List.mapM_cons, List.mapM_cons]
    cases before.mapM (lowerContract file) with
    | error e => trivial
    | ok others =>
      cases hlower : lowerContract file contract with
      | error e =>
        cases hlower' : lowerContract file (contract.substitute p literal) with
        | error e' => trivial
        | ok lowered' =>
          rw [hlower, hlower'] at hcontract
          cases hcontract
      | ok lowered =>
        cases hlower' : lowerContract file (contract.substitute p literal) with
        | error e' =>
          rw [hlower, hlower'] at hcontract
          cases hcontract
        | ok lowered' =>
          rw [hlower, hlower'] at hcontract
          cases after.mapM (lowerContract file) with
          | error e => trivial
          | ok rest => exact ⟨others, rest, lowered, lowered', rfl, rfl, rfl, rfl, hcontract⟩
  apply hcontracts.bind
  intro contracts contracts' h
  obtain ⟨others, rest, lowered, lowered', hothers, hlowered, h, h', hsub⟩ := h
  exact ⟨others, rest, lowered, lowered', hothers, hlowered, h, h', hsub, rfl⟩

end KaspaScript
