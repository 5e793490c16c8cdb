import KaspaScript.Ir.Calls
import KaspaScript.Semantic.Declarations

namespace KaspaScript

open Checker

/-- The type that the checker gives a name of the language, declared or not. -/
def builtinType : String → Option TypeName
  | "block" => some .blockHeight
  | "covenant_id" => some .covenantId
  | "sequencing" => some .hash
  | "input_count" | "output_count" => some .amount
  | "input" | "output" | "multisig" | "zk_verify" | "sha256" | "blake2b" | "hash160" => some .bool
  | _ => none

/-- An identifier that is no callee: `root` where a field of the language is read off it, and
`lowered` where its instruction is emitted. -/
structure Use where
  id : Ident
  root : Bool
  lowered : Bool

def Use.passedOver (use : Use) : Use := { use with lowered := false }

/-- The identifiers of a field's object; `inner` are those of an object that is no name. -/
def objectUses (object : Expr) (field : Ident) (inner : List Use) : List Use :=
  match object with
  | .ident root => [⟨root, isRootAccess (.ident root) field, true⟩]
  | _ => inner

/-- The identifiers of a callee that is no name; a `verify` looks its receiver up by itself. -/
def calleeUses (callee : Expr) (receiver inner : List Use) : List Use :=
  match callee with
  | .ident _ => []
  | .field _ field _ => if field.name = "verify" then receiver else inner
  | _ => inner

mutual

/-- The identifiers of an expression, callees apart. -/
def Expr.uses : Expr → List Use
  | .ident id => [⟨id, false, true⟩]
  | .integer _ _ | .string _ _ | .bool _ _ => []
  | .array elements _ => usesEach elements
  | .unary _ expr _ => Expr.uses expr
  | .binary left op right _ =>
      (if (lockClock left op).isSome then (Expr.uses left).map Use.passedOver
        else Expr.uses left) ++ Expr.uses right
  | .call callee args _ =>
      calleeUses callee
        (match callee with
          | .field object _ _ => Expr.uses object
          | _ => [])
        (Expr.uses callee) ++ usesEach args
  | .field object field _ =>
      let uses := objectUses object field (Expr.uses object)
      if (fieldBuiltin object field.name).isSome then uses.map Use.passedOver else uses

def usesEach : List Expr → List Use
  | [] => []
  | expr :: rest => Expr.uses expr ++ usesEach rest

end

theorem mem_usesEach {es : List Expr} {use : Use} :
    use ∈ usesEach es ↔ ∃ e ∈ es, use ∈ e.uses := by
  induction es with
  | nil => simp [usesEach]
  | cons e es ih => simp [usesEach, ih]

theorem root_passedOver {uses : List Use} {use : Use} (h : use ∈ uses.map Use.passedOver) :
    ∃ use' ∈ uses, use.id = use'.id ∧ use.root = use'.root ∧ use.lowered = false := by
  obtain ⟨use', hmem, rfl⟩ := List.mem_map.mp h
  exact ⟨use', hmem, rfl, rfl, rfl⟩

section

variable {cx : Checker} {scope : Scope}

/-- Every identifier that nothing of the language is read off has been looked up. -/
def LooksUp (cx : Checker) (scope : Scope) (uses : List Use) : Prop :=
  ∀ use ∈ uses, use.root = false → cx.Accepts scope (.ident use.id)

theorem LooksUp.append {uses uses' : List Use} (h : LooksUp cx scope uses)
    (h' : LooksUp cx scope uses') : LooksUp cx scope (uses ++ uses') := by
  intro use hmem hroot
  rcases List.mem_append.mp hmem with hmem | hmem
  · exact h use hmem hroot
  · exact h' use hmem hroot

theorem LooksUp.passedOver {uses : List Use} (h : LooksUp cx scope uses) :
    LooksUp cx scope (uses.map Use.passedOver) := by
  intro use hmem hroot
  obtain ⟨use', hmem', hid, hroot', _⟩ := root_passedOver hmem
  rw [hid]
  exact h use' hmem' (hroot' ▸ hroot)

theorem looksUp_nil : LooksUp cx scope [] := by
  intro use hmem
  cases hmem

theorem looksUp_each {es : List Expr} (h : ∀ e ∈ es, LooksUp cx scope e.uses) :
    LooksUp cx scope (usesEach es) := by
  intro use hmem hroot
  obtain ⟨e, he, hmem⟩ := mem_usesEach.mp hmem
  exact h e he use hmem hroot

theorem looksUp_outputCall {output : Expr} {index : Nat}
    (h : outputCallIndex output = some index) : LooksUp cx scope output.uses := by
  unfold outputCallIndex at h
  split at h
  · simp [Expr.uses, usesEach, calleeUses, looksUp_nil]
  · cases h

/-- The object of a field is looked up, unless the field is one of the language. -/
theorem looksUp_field {object : Expr} {field : Ident} {span : Span}
    (hform : FieldForm cx scope field object)
    (ih : cx.Accepts scope object → LooksUp cx scope object.uses) :
    LooksUp cx scope (Expr.field object field span).uses := by
  have hroot (root : Ident) (h : isRootAccess (.ident root) field = true) (inner : List Use) :
      LooksUp cx scope (objectUses (.ident root) field inner) := by
    intro use hmem hfalse
    rw [objectUses, List.mem_singleton] at hmem
    subst hmem
    rw [h] at hfalse
    cases hfalse
  have hobject : LooksUp cx scope (objectUses object field object.uses) := by
    cases hform with
    | clock hname _ => exact hroot _ (by simp [isRootAccess, hname]) _
    | depth hname hfield => exact hroot _ (by simp [isRootAccess, hname, hfield]) _
    | sequencing hname => exact hroot _ (by simp [isRootAccess, hname]) _
    | access _ haccepts _ =>
      cases object with
      | ident root =>
        intro use hmem _
        rw [objectUses, List.mem_singleton] at hmem
        subst hmem
        exact haccepts
      | _ => exact ih haccepts
  rw [Expr.uses]
  split_ifs
  · exact hobject.passedOver
  · exact hobject

theorem looksUp_callForm {callee : Expr} {args : List Expr} {span : Span}
    (hform : CallForm cx scope callee args)
    (ihc : cx.Accepts scope callee → LooksUp cx scope callee.uses)
    (ihobject : ∀ object field span', callee = .field object field span' →
      cx.Accepts scope object → LooksUp cx scope object.uses)
    (ih : ∀ arg ∈ args, cx.Accepts scope arg → LooksUp cx scope arg.uses) :
    LooksUp cx scope (Expr.call callee args span).uses := by
  cases hform with
  | @verify object field span' key hfield hobject _ hkey _ =>
    rw [Expr.uses, calleeUses, if_pos hfield]
    exact (ihobject object field span' rfl hobject).append
      (looksUp_each (List.forall_mem_singleton.mpr (ih key (by simp) hkey)))
  | index _ _ => simp [calleeUses, Expr.uses, usesEach, looksUp_nil]
  | continuation _ _ houtput =>
    have hout := @looksUp_outputCall cx scope _ _ houtput
    simpa [calleeUses, Expr.uses, usesEach] using hout
  | proof _ hproof _ =>
    rw [Expr.uses]
    · exact looksUp_nil.append
        (looksUp_each (List.forall_mem_singleton.mpr (ih _ (by simp) hproof)))
    · simp
  | hash _ harg =>
    rw [Expr.uses]
    · exact looksUp_nil.append
        (looksUp_each (List.forall_mem_singleton.mpr (ih _ (by simp) harg)))
    · simp
  | multisig _ _ hkeys hsignatures =>
    have hkeys' := ih _ (by simp) hkeys
    have hsignatures' := ih _ (by simp) hsignatures
    rw [Expr.uses, usesEach, usesEach, usesEach, usesEach, Expr.uses]
    · exact looksUp_nil.append (looksUp_nil.append (hkeys'.append
        (hsignatures'.append looksUp_nil)))
    · simp
  | other hcallee haccepts hargs =>
    have hrest := looksUp_each fun arg harg => ih arg harg (hargs arg harg)
    cases callee with
    | ident id =>
      rw [Expr.uses]
      · exact looksUp_nil.append hrest
      · simp
    | field object field span' =>
      have hfield : ¬ field.name = "verify" := by simpa [isBuiltinCallee] using hcallee
      rw [Expr.uses, calleeUses, if_neg hfield]
      exact (ihc haccepts).append hrest
    | _ =>
      rw [Expr.uses]
      · exact (ihc haccepts).append hrest
      · simp

theorem looksUp (e : Expr) : cx.Accepts scope e → LooksUp cx scope e.uses := by
  -- a call's receiver lies two levels down, so the statement carries the object of a field too
  suffices hboth : (cx.Accepts scope e → LooksUp cx scope e.uses) ∧
      ∀ object field span, e = .field object field span →
        cx.Accepts scope object → LooksUp cx scope object.uses from hboth.1
  induction e using Expr.induct with
  | ident id =>
    refine ⟨?_, by simp⟩
    intro h use hmem _
    rw [Expr.uses, List.mem_singleton] at hmem
    subst hmem
    exact h
  | array elements span ih =>
    refine ⟨?_, by simp⟩
    intro h
    rw [Expr.uses]
    exact looksUp_each fun e he => (ih e he).1 (accepts_array.mp h e he)
  | unary op e span ih =>
    refine ⟨?_, by simp⟩
    intro h
    rw [Expr.uses]
    exact ih.1 (accepts_unary h).1
  | binary left op right span ihl ihr =>
    refine ⟨?_, by simp⟩
    intro h
    obtain ⟨hleft, hright, _⟩ := accepts_binary h
    rw [Expr.uses]
    apply LooksUp.append _ (ihr.1 hright)
    split_ifs
    · exact (ihl.1 hleft).passedOver
    · exact ihl.1 hleft
  | call callee args span ihc ih =>
    refine ⟨?_, by simp⟩
    intro h
    exact looksUp_callForm (callForm_of_accepts h) ihc.1 ihc.2 (fun arg harg => (ih arg harg).1)
  | field object field span ih =>
    constructor
    · intro h
      exact looksUp_field (fieldForm_of_accepts h) ih.1
    · intro object' field' span' heq
      cases heq
      exact ih.1
  | _ =>
    refine ⟨?_, by simp⟩
    intro _
    rw [Expr.uses]
    exact looksUp_nil

/-- The instruction that an identifier is lowered to. -/
def identKind (name : String) : InstructionKind :=
  if name = "input_count" then .inputCount
  else if name = "output_count" then .outputCount
  else .push (.symbol name)

theorem lowerExpr_ident (file : String) (id : Ident) :
    lowerExpr file (.ident id) = .ok (emit id.span (identKind id.name)) := by
  rw [lowerExpr]
  unfold identKind
  split <;> simp_all

/-- The instruction of every lowered identifier is in the code. -/
def Emits (code : List InstructionKind) (uses : List Use) : Prop :=
  ∀ use ∈ uses, use.lowered = true → identKind use.id.name ∈ code

theorem Emits.append {code rest : List InstructionKind} {uses uses' : List Use}
    (h : Emits code uses) (h' : Emits rest uses') : Emits (code ++ rest) (uses ++ uses') := by
  intro use hmem hlowered
  rcases List.mem_append.mp hmem with hmem | hmem
  · exact List.mem_append_left _ (h use hmem hlowered)
  · exact List.mem_append_right _ (h' use hmem hlowered)

theorem Emits.left {code : List InstructionKind} {uses : List Use} (h : Emits code uses)
    (rest : List InstructionKind) : Emits (code ++ rest) uses := by
  intro use hmem hlowered
  exact List.mem_append_left _ (h use hmem hlowered)

theorem emits_passedOver {code : List InstructionKind} {uses : List Use} :
    Emits code (uses.map Use.passedOver) := by
  intro use hmem hlowered
  obtain ⟨_, _, _, _, hnot⟩ := root_passedOver hmem
  rw [hnot] at hlowered
  cases hlowered

theorem emits_nil {code : List InstructionKind} : Emits code [] := by
  intro use hmem
  cases hmem

theorem usesEach_singleton (e : Expr) : usesEach [e] = e.uses := by
  rw [usesEach, usesEach, List.append_nil]

theorem emits_of_lowers {es : List Expr} {code : List InstructionKind} (h : Lowers es code)
    (hes : ∀ e ∈ es, Visited cx scope e) : Emits code (usesEach es) := by
  have single {e : Expr} (he : cx.Accepts scope e) : ∀ e' ∈ [e], Visited cx scope e' :=
    List.forall_mem_singleton.mpr (Or.inl he)
  induction h with
  | nil => exact emits_nil
  | @cons e es code rest _ _ ihe ihes =>
    have he := ihe (List.forall_mem_singleton.mpr (hes e List.mem_cons_self))
    have hrest := ihes fun e' he' => hes e' (List.mem_cons_of_mem _ he')
    rw [usesEach_singleton] at he
    rw [usesEach]
    exact he.append hrest
  | @inputCount id hid =>
    intro use hmem _
    rw [usesEach_singleton, Expr.uses, List.mem_singleton] at hmem
    subst hmem
    simp [identKind, hid]
  | @outputCount id hid =>
    intro use hmem _
    rw [usesEach_singleton, Expr.uses, List.mem_singleton] at hmem
    subst hmem
    simp [identKind, hid]
  | @symbol id hin hout =>
    intro use hmem _
    rw [usesEach_singleton, Expr.uses, List.mem_singleton] at hmem
    subst hmem
    simp [identKind, hin, hout]
  | integer | string | bool =>
    rw [usesEach_singleton, Expr.uses]
    exact emits_nil
  | array _ ih =>
    have hself := List.forall_mem_singleton.mp hes
    rw [usesEach_singleton, Expr.uses]
    exact ih fun e he => Or.inl (accepts_array.mp (hself.accepts (by simp)) e he)
  | not _ ih =>
    have hself := List.forall_mem_singleton.mp hes
    have hinner := ih (single (accepts_unary (hself.accepts (by simp))).1)
    rw [usesEach_singleton] at hinner
    rw [usesEach_singleton, Expr.uses]
    exact hinner.left _
  | @lockLiteral left value span span' clock hclock =>
    rw [usesEach_singleton, Expr.uses, hclock, Expr.uses, List.append_nil]
    exact emits_passedOver
  | @lockStack left right span clock code hclock _ _ ih =>
    have hself := List.forall_mem_singleton.mp hes
    have hright := ih (single (accepts_binary (hself.accepts (by simp))).2.1)
    rw [usesEach_singleton] at hright
    rw [usesEach_singleton, Expr.uses, hclock]
    exact (@emits_passedOver [] _).append (hright.left _)
  | @binary left op right span cl cr hclock _ _ ihl ihr =>
    have hself := List.forall_mem_singleton.mp hes
    have haccepted := accepts_binary (hself.accepts (by simp))
    have hleft := ihl (single haccepted.1)
    have hright := ihr (single haccepted.2.1)
    rw [usesEach_singleton] at hleft hright
    rw [usesEach_singleton, Expr.uses, hclock]
    exact (hleft.append hright).left _
  | @verify object field args span span' co ck hfield _ _ iho ihk =>
    cases (List.forall_mem_singleton.mp hes).call with
    | other hcallee _ _ => simp [isBuiltinCallee, hfield] at hcallee
    | verify _ hobject _ hkey _ =>
      have hreceiver := iho (single hobject)
      have hkey := ihk (single hkey)
      rw [usesEach_singleton] at hreceiver
      rw [usesEach_singleton, Expr.uses, calleeUses, if_pos hfield]
      exact (hreceiver.append hkey).left _
  | @indexCall id value span span' rest hid _ =>
    obtain ⟨_, _, hargs⟩ := indexArgs (List.forall_mem_singleton.mp hes).call hid
    rw [hargs, usesEach_singleton]
    simp [Expr.uses, usesEach, calleeUses, emits_nil]
  | @continuation id args span index hid _ =>
    obtain ⟨label, span', output, index', rfl, houtput⟩ :=
      continuationArgs (List.forall_mem_singleton.mp hes).call hid
    have hnone : output.uses = [] := by
      unfold outputCallIndex at houtput
      split at houtput
      · simp [Expr.uses, usesEach, calleeUses]
      · cases houtput
    rw [usesEach_singleton]
    simp [Expr.uses, usesEach, calleeUses, hnone, emits_nil]
  | @multisig id required rest span span' cs ck hid _ _ _ ihs ihk =>
    obtain ⟨_, _, keys, signatures, hargs, _, hkeys, hsignatures⟩ :=
      multisigArgs (List.forall_mem_singleton.mp hes).call hid
    rw [List.cons.injEq] at hargs
    obtain ⟨_, rfl⟩ := hargs
    have hkeys := ihk (single hkeys)
    have hsignatures := ihs (single hsignatures)
    simp only [List.getElem?_cons_zero, List.getElem?_cons_succ, Option.toList_some,
      usesEach_singleton] at hkeys hsignatures
    intro use hmem hlowered
    have hmem' : use ∈ keys.uses ∨ use ∈ signatures.uses := by
      simpa [usesEach, Expr.uses, calleeUses] using hmem
    simp only [List.mem_append, List.mem_singleton]
    rcases hmem' with hmem' | hmem'
    · exact Or.inl (Or.inr (hkeys use hmem' hlowered))
    · exact Or.inl (Or.inl (Or.inl (hsignatures use hmem' hlowered)))
  | @unaryCall id args span kind code hkind _ ih =>
    obtain ⟨arg, rfl, harg⟩ := unaryArgs (List.forall_mem_singleton.mp hes).call hkind
    have hinner := ih (single harg)
    rw [usesEach_singleton, Expr.uses]
    · exact hinner.left _
    · simp
  | @call callee args span cc ca hcallee _ _ ihc iha =>
    cases (List.forall_mem_singleton.mp hes).call with
    | other _ hvisited hargs =>
      have hhead := ihc (single hvisited)
      have hrest := iha fun e he => Or.inl (hargs e he)
      rw [usesEach_singleton] at hhead
      rw [usesEach_singleton]
      cases callee with
      | ident id =>
        rw [Expr.uses]
        · exact emits_nil.append hrest
        · simp
      | field object field span' =>
        have hfield : ¬ field.name = "verify" := by simpa [isBuiltinCallee] using hcallee
        rw [Expr.uses, calleeUses, if_neg hfield]
        exact hhead.append hrest
      | _ =>
        rw [Expr.uses]
        · exact hhead.append hrest
        · simp
    | _ => simp_all [isBuiltinCallee, builtinCallNames]
  | @builtinField object field span kind hkind =>
    rw [usesEach_singleton, Expr.uses, hkind]
    exact emits_passedOver
  | @field object field span code _ hnone _ ih =>
    have hinner := ih (by simpa using (List.forall_mem_singleton.mp hes).object)
    rw [usesEach_singleton] at hinner
    rw [usesEach_singleton, Expr.uses, hnone]
    apply Emits.left
    cases object with
    | ident root =>
      intro use hmem _
      rw [if_neg (by simp), objectUses, List.mem_singleton] at hmem
      subst hmem
      exact hinner ⟨root, false, true⟩ (by simp [Expr.uses]) rfl
    | _ => exact hinner

/-- A field of the language is typed without a look at the name in front of it. -/
theorem inferField_root {object : Expr} {field : Ident} (h : isRootAccess object field = true)
    (x y : Library.Collect SemanticError (Option TypeName)) :
    cx.inferField object field x = cx.inferField object field y := by
  cases object with
  | ident root =>
    simp only [isRootAccess, Bool.or_eq_true, Bool.and_eq_true, beq_iff_eq] at h
    simp only [inferField]
    split_ifs <;> tauto
  | _ => simp [isRootAccess] at h

/-- A name of the language is typed before the scope is asked. -/
theorem typeOf_ident {id : Ident} (h : id.name ∉ cx.spendNames) :
    cx.typeOf scope (.ident id) = (builtinType id.name).or (scope.get id.name) := by
  unfold typeOf
  rw [inferExpr, inferIdentifier, if_neg h]
  split
  case h_13 =>
    cases hget : scope.get id.name <;> simp_all [builtinType]
  all_goals
    next hname =>
      rw [hname]
      rfl

/-- The identifier stands for what is declared under its name: it is looked up, it has the
declared type, and where it is lowered it pushes its own symbol. -/
structure StandsFor (cx : Checker) (scope : Scope) (file : String) (use : Use) (ty : TypeName) :
    Prop where
  lookedUp : use.root = false
  typed : cx.typeOf scope (.ident use.id) = some ty
  lowered : use.lowered = true →
    lowerExpr file (.ident use.id) = .ok (emit use.id.span (.push (.symbol use.id.name)))

/-- No declared name of a spend is taken for a builtin. -/
def Uncaptured (cx : Checker) (file : String) (contract : Contract) (spend : Spend) : Prop :=
  ∀ pre stmt post, spend.body = pre ++ stmt :: post → ∀ use ∈ stmt.expr.uses, ∀ ty,
    DeclaredAt cx contract spend pre use.id.name ty →
      StandsFor cx (cx.scopeAt contract spend pre) file use ty

/-- Where a declared name is that of a builtin it is used harmlessly: no field of the language is
read off it, it is declared with the builtin's type, and no count is lowered. -/
def HarmlessNames (cx : Checker) (contract : Contract) (spend : Spend) : Prop :=
  ∀ pre stmt post, spend.body = pre ++ stmt :: post → ∀ use ∈ stmt.expr.uses, ∀ ty,
    DeclaredAt cx contract spend pre use.id.name ty →
      use.root = false ∧ (∀ own, builtinType use.id.name = some own → own = ty) ∧
        (use.lowered = true → use.id.name ≠ "input_count" ∧ use.id.name ≠ "output_count")

theorem identKind_eq_symbol {name : String} :
    identKind name = .push (.symbol name) ↔ name ≠ "input_count" ∧ name ≠ "output_count" := by
  unfold identKind
  by_cases hin : name = "input_count"
  · simp [hin]
  · by_cases hout : name = "output_count" <;> simp [hin, hout]

theorem pushesSymbol_iff {file : String} {id : Ident} :
    lowerExpr file (.ident id) = .ok (emit id.span (.push (.symbol id.name))) ↔
      id.name ≠ "input_count" ∧ id.name ≠ "output_count" := by
  rw [lowerExpr_ident, Except.ok.injEq, emit, emit, List.cons.injEq, Instruction.mk.injEq,
    ← identKind_eq_symbol]
  simp

theorem standsFor_iff {file : String} {use : Use} {ty : TypeName}
    (hlookup : use.root = false → cx.Accepts scope (.ident use.id))
    (hget : scope.get use.id.name = some ty) :
    StandsFor cx scope file use ty ↔
      use.root = false ∧ (∀ own, builtinType use.id.name = some own → own = ty) ∧
        (use.lowered = true → use.id.name ≠ "input_count" ∧ use.id.name ≠ "output_count") := by
  have htype (hroot : use.root = false) : cx.typeOf scope (.ident use.id) = some ty ↔
      ∀ own, builtinType use.id.name = some own → own = ty := by
    rw [typeOf_ident (accepts_ident (hlookup hroot)).1, hget]
    cases builtinType use.id.name <;> simp
  constructor
  · intro h
    exact ⟨h.lookedUp, (htype h.lookedUp).mp h.typed,
      fun hlow => pushesSymbol_iff.mp (h.lowered hlow)⟩
  · intro h
    obtain ⟨hroot, hown, hcount⟩ := h
    exact ⟨hroot, (htype hroot).mpr hown, fun hlow => pushesSymbol_iff.mpr (hcount hlow)⟩

/-- A builtin captures a declared name exactly where one is used harmfully. -/
theorem uncaptured_iff (program : Program) (source file : String) (analysis : Analysis)
    (h : analyzeProgram program source file = .ok analysis) :
    ∀ contract ∈ program.contracts, ∀ spend ∈ contract.spends,
      Uncaptured (checkerAt source file contract) file contract spend ↔
        HarmlessNames (checkerAt source file contract) contract spend := by
  intro contract hcontract spend hspend
  obtain ⟨haccepted, _⟩ := accepted_of_analyzeProgram h
  have hcontract' := haccepted.contract contract hcontract
  have hspend' := hcontract'.spend spend hspend
  have huse : ∀ pre stmt post, spend.body = pre ++ stmt :: post → ∀ use ∈ stmt.expr.uses, ∀ ty,
      DeclaredAt (checkerAt source file contract) contract spend pre use.id.name ty →
      (StandsFor (checkerAt source file contract)
          ((checkerAt source file contract).scopeAt contract spend pre) file use ty ↔
        use.root = false ∧ (∀ own, builtinType use.id.name = some own → own = ty) ∧
          (use.lowered = true → use.id.name ≠ "input_count" ∧ use.id.name ≠ "output_count")) := by
    intro pre stmt post hbody use hmem ty hdeclared
    have hclean := hspend'.body
    rw [hbody] at hclean
    have haccepts := accepts_stmt (clean_checkStmts_at hclean).2
    exact standsFor_iff (looksUp stmt.expr haccepts use hmem)
      (get_of_declared hcontract'.params.1 hspend' hbody hdeclared)
  constructor
  · intro hall pre stmt post hbody use hmem ty hdeclared
    exact (huse pre stmt post hbody use hmem ty hdeclared).mp
      (hall pre stmt post hbody use hmem ty hdeclared)
  · intro hall pre stmt post hbody use hmem ty hdeclared
    exact (huse pre stmt post hbody use hmem ty hdeclared).mpr
      (hall pre stmt post hbody use hmem ty hdeclared)

end

/-- The vault declares none of the names that it uses for a builtin. -/
theorem uncaptured_vault :
    Uncaptured (checkerAt "" "vault.ks" vaultContract) "vault.ks" vaultContract vaultSpend := by
  apply (uncaptured_iff vaultProgram "" "vault.ks" _ rfl vaultContract
    (List.mem_singleton_self _) vaultSpend (List.mem_singleton_self _)).mpr
  intro pre stmt post hbody use hmem ty hdeclared
  have hbody' : vaultBody = pre ++ stmt :: post := hbody
  have hname : use.id.name ∈ ["owner", "sig", "proof"] := by
    rcases hdeclared.name_mem with hparam | hparam | ⟨ident, e, span, hlet, hparam⟩
    · simp_all [paramNames, vaultContract, nameAt]
    · simp_all [paramNames, vaultSpend, nameAt]
    · have hlet' : Stmt.let ident e span ∈ vaultBody := by simp [hbody', hlet]
      simp only [vaultBody, List.mem_cons, Stmt.let.injEq, List.not_mem_nil, or_false,
        reduceCtorEq] at hlet'
      simp [← hparam, hlet'.1, nameAt]
  have hstmt : stmt ∈ vaultBody := by simp [hbody']
  have huses : vaultBody.all (fun stmt => stmt.expr.uses.all fun use => !use.root) = true := by
    decide
  have hroot := List.all_eq_true.mp (List.all_eq_true.mp huses stmt hstmt) use hmem
  rw [Bool.not_eq_true'] at hroot
  refine ⟨hroot, ?_⟩
  simp only [List.mem_cons, List.not_mem_nil, or_false] at hname
  rcases hname with hname | hname | hname <;> rw [hname] <;> simp [builtinType]

/-- `require output(0).value == input_count;` -/
def countedSpend : Spend :=
  ⟨nameAt "move", [],
    [.require (.binary (.field (.call (.ident (nameAt "output")) [.integer 0 ⟨0, 0⟩] ⟨0, 0⟩)
      (nameAt "value") ⟨0, 0⟩) .equal (.ident (nameAt "input_count")) ⟨0, 0⟩) ⟨0, 0⟩], ⟨0, 0⟩⟩

/-- `contract Counted { params { input_count: Amount } spend move() { .. } }` -/
def countedContract : Contract :=
  ⟨nameAt "Counted", [⟨nameAt "input_count", .amount, ⟨0, 0⟩⟩], none, [countedSpend], ⟨0, 0⟩⟩

/-- An accepted contract compares the value of an output with its own parameter, and the code
compares it with the number of inputs. -/
theorem captured_counted : ∃ analysis ir,
    analyzeProgram ⟨[countedContract]⟩ "" "counted.ks" = .ok analysis ∧
    lowerProgram analysis.program analysis.kipRequirements "counted.ks" = .ok ir ∧
    ir.contracts.flatMap (fun contract => contract.spends.map fun spend =>
      kinds spend.instructions) = [[.outputValue 0, .inputCount, .equal, .verify]] ∧
    ¬ Uncaptured (checkerAt "" "counted.ks" countedContract) "counted.ks" countedContract
      countedSpend := by
  refine ⟨_, _, rfl, rfl, rfl, ?_⟩
  intro huncaptured
  have hdeclared : DeclaredAt (checkerAt "" "counted.ks" countedContract) countedContract
      countedSpend [] "input_count" .amount :=
    @DeclaredAt.contractParam _ _ _ _ ⟨nameAt "input_count", .amount, ⟨0, 0⟩⟩
      (List.mem_singleton_self _)
  have hstands := huncaptured [] _ [] rfl ⟨nameAt "input_count", false, true⟩
    (List.mem_singleton_self _) .amount hdeclared
  have hpushes := pushesSymbol_iff.mp (hstands.lowered rfl)
  exact hpushes.1 rfl

end KaspaScript
