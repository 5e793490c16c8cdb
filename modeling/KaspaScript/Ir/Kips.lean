import KaspaScript.Ir.Lowers

namespace KaspaScript

open Checker
open Library (bind_eq_ok pure_eq_ok)

/-- The KIP that an instruction's opcode belongs to. -/
def instructionKip : InstructionKind → Option Nat
  | .inputValue _ | .inputScript _ | .outputValue _ | .outputScript _ | .inputCount
  | .outputCount => some 10
  | .covenantId | .covenantDepth => some 20
  | .zkVerifyGroth16 => some 16
  | _ => none

theorem mem_collectAllKips {es : List Expr} {kip : Nat} :
    kip ∈ collectAllKips es ↔ ∃ e ∈ es, kip ∈ collectExprKips e := by
  induction es with
  | nil => simp [collectAllKips]
  | cons e es ih => simp [collectAllKips, ih]

theorem collectAllKips_subset {es es' : List Expr} (h : ∀ e ∈ es, e ∈ es') {kip : Nat}
    (hkip : kip ∈ collectAllKips es) : kip ∈ collectAllKips es' := by
  obtain ⟨e, he, hmem⟩ := mem_collectAllKips.mp hkip
  exact mem_collectAllKips.mpr ⟨e, h e he, hmem⟩

/-- Each KIP that some instruction of the sequence needs is among those collected. -/
def KipsDeclared (declared : List Nat) (code : List InstructionKind) : Prop :=
  ∀ kind ∈ code, ∀ kip, instructionKip kind = some kip → kip ∈ declared

theorem KipsDeclared.append {declared : List Nat} {code code' : List InstructionKind}
    (h : KipsDeclared declared code) (h' : KipsDeclared declared code') :
    KipsDeclared declared (code ++ code') := by
  intro kind hmem
  rcases List.mem_append.mp hmem with hmem | hmem
  · exact h kind hmem
  · exact h' kind hmem

theorem KipsDeclared.mono {declared declared' : List Nat} {code : List InstructionKind}
    (h : KipsDeclared declared code) (hsubset : ∀ kip ∈ declared, kip ∈ declared') :
    KipsDeclared declared' code := by
  intro kind hmem kip hkip
  exact hsubset kip (h kind hmem kip hkip)

theorem kipsDeclared_free {declared : List Nat} {kind : InstructionKind}
    (h : instructionKip kind = none) : KipsDeclared declared [kind] := by
  intro kind' hmem kip hkip
  rw [List.mem_singleton] at hmem
  subst hmem
  rw [h] at hkip
  cases hkip

theorem kipsDeclared_one {declared : List Nat} {kind : InstructionKind} {kip : Nat}
    (h : instructionKip kind = some kip) (hkip : kip ∈ declared) : KipsDeclared declared [kind] := by
  intro kind' hmem kip' hkip'
  rw [List.mem_singleton] at hmem
  subst hmem
  rw [h, Option.some.injEq] at hkip'
  exact hkip' ▸ hkip

/-- The named calls and paths that an introspection or covenant field goes through. -/
theorem kips_indexedObject {object : Expr} {root : String} {args : List Expr}
    (h : indexedObject object = some (root, args)) : 10 ∈ collectExprKips object := by
  unfold indexedObject at h
  split at h
  · split_ifs at h with hroot
    rw [collectExprKips, List.mem_append, collectExprKips]
    left
    rcases hroot with hroot | hroot <;> rw [hroot] <;> exact List.mem_singleton_self 10
  · cases h

theorem kips_path {object : Expr} (h : isPath object ["covenant_id"] = true) :
    20 ∈ collectExprKips object := by
  unfold isPath at h
  cases object with
  | ident id =>
    have hname : id.name = "covenant_id" := by simpa [collectPath] using h
    rw [collectExprKips, hname]
    exact List.mem_singleton_self 20
  | field inner field span =>
    have hname : collectPath inner = [] ∧ field.name = "covenant_id" := by
      cases hinner : collectPath inner with
      | nil => simpa [collectPath, hinner] using h
      | cons first rest => simp [collectPath, hinner] at h
    rw [collectExprKips, if_pos hname.2]
    exact List.mem_append_left _ (List.mem_singleton_self 20)
  | _ => simp [collectPath] at h

theorem kipsDeclared_field {object : Expr} {field : Ident} {span : Span} {kind : InstructionKind}
    (h : fieldBuiltin object field.name = some kind) :
    KipsDeclared (collectExprKips (.field object field span)) [kind] := by
  have hmono : ∀ kip ∈ collectExprKips object, kip ∈ collectExprKips (.field object field span) := by
    intro kip hkip
    rw [collectExprKips]
    exact List.mem_append_right _ hkip
  unfold fieldBuiltin at h
  split at h
  · rename_i root index span' rest hobject
    have hten := hmono 10 (kips_indexedObject hobject)
    unfold indexedKind at h
    split at h <;> simp only [Option.some.injEq, reduceCtorEq] at h <;> subst h
    · exact kipsDeclared_one rfl hten
    · exact kipsDeclared_one rfl hten
    · exact kipsDeclared_one rfl hten
    · exact kipsDeclared_one rfl hten
    all_goals
      rename_i hfield
      have htwenty : 20 ∈ collectExprKips (.field object field span) := by
        rw [collectExprKips, if_pos hfield]
        exact List.mem_append_left _ (List.mem_singleton_self 20)
      exact kipsDeclared_one rfl htwenty
  · cases h
  · split_ifs at h with hdepth hsequencing <;> simp only [Option.some.injEq] at h <;> subst h
    · exact kipsDeclared_one rfl (hmono 20 (kips_path hdepth.1))
    · exact kipsDeclared_free rfl

theorem kips_outputCall {output : Expr} {index : Nat} (h : outputCallIndex output = some index) :
    10 ∈ collectExprKips output := by
  unfold outputCallIndex at h
  split at h
  · split_ifs at h with hroot
    rw [collectExprKips, List.mem_append, collectExprKips, hroot.1]
    exact Or.inl (List.mem_singleton_self 10)
  · cases h

theorem kipsDeclared_call {callee : Expr} {args : List Expr} {span : Span}
    {code : List InstructionKind} (h : KipsDeclared (collectExprKips callee) code ∨
      KipsDeclared (collectAllKips args) code) :
    KipsDeclared (collectExprKips (.call callee args span)) code := by
  rw [collectExprKips]
  rcases h with h | h
  · exact h.mono fun kip hkip => List.mem_append_left _ hkip
  · exact h.mono fun kip hkip => List.mem_append_right _ hkip

/-- No path through the lowering emits an instruction whose KIP the collector has not seen. -/
theorem kipsDeclared_of_lowers {es : List Expr} {code : List InstructionKind}
    (h : Lowers es code) : KipsDeclared (collectAllKips es) code := by
  -- a single expression is a list of one
  have single {e : Expr} {code : List InstructionKind}
      (h : KipsDeclared (collectExprKips e) code) : KipsDeclared (collectAllKips [e]) code := by
    simpa [collectAllKips] using h
  have unsingle {e : Expr} {code : List InstructionKind}
      (h : KipsDeclared (collectAllKips [e]) code) : KipsDeclared (collectExprKips e) code := by
    simpa [collectAllKips] using h
  induction h with
  | nil => simp [KipsDeclared]
  | cons _ _ ih ih' =>
    rw [collectAllKips]
    apply KipsDeclared.append
    · exact (unsingle ih).mono fun kip hkip => List.mem_append_left _ hkip
    · exact ih'.mono fun kip hkip => List.mem_append_right _ hkip
  | inputCount hid =>
    apply single
    apply kipsDeclared_one rfl
    rw [collectExprKips, hid]
    exact List.mem_singleton_self 10
  | outputCount hid =>
    apply single
    apply kipsDeclared_one rfl
    rw [collectExprKips, hid]
    exact List.mem_singleton_self 10
  | symbol _ _ => exact kipsDeclared_free rfl
  | integer => exact kipsDeclared_free rfl
  | string => exact kipsDeclared_free rfl
  | bool => exact kipsDeclared_free rfl
  | array _ ih =>
    apply single
    rw [collectExprKips]
    exact ih
  | not _ ih =>
    apply single
    rw [collectExprKips]
    exact (unsingle ih).append (kipsDeclared_free rfl)
  | @lockLiteral _ _ _ _ clock _ => cases clock <;> exact kipsDeclared_free rfl
  | @lockStack left right span clock code _ _ _ ih =>
    apply single
    rw [collectExprKips]
    apply KipsDeclared.append
    · exact (unsingle ih).mono fun kip hkip => List.mem_append_right _ hkip
    · cases clock <;> exact kipsDeclared_free rfl
  | @binary left op right span cl cr _ _ _ ihl ihr =>
    apply single
    rw [collectExprKips]
    apply KipsDeclared.append
    · apply KipsDeclared.append
      · exact (unsingle ihl).mono fun kip hkip => List.mem_append_left _ hkip
      · exact (unsingle ihr).mono fun kip hkip => List.mem_append_right _ hkip
    · cases op <;> exact kipsDeclared_free rfl
  | verify _ _ _ iho ihk =>
    apply single
    apply KipsDeclared.append
    · apply KipsDeclared.append
      · apply kipsDeclared_call
        left
        rw [collectExprKips]
        exact (unsingle iho).mono fun kip hkip => List.mem_append_right _ hkip
      · apply kipsDeclared_call
        right
        exact ihk.mono fun kip hkip => collectAllKips_subset (fun e he => List.mem_of_mem_take he) hkip
    · exact kipsDeclared_free rfl
  | indexCall _ _ => exact kipsDeclared_free rfl
  | @continuation id args span index _ hindex =>
    have hten : 10 ∈ collectAllKips args := by
      obtain ⟨output, hget, houtput⟩ := Option.bind_eq_some_iff.mp hindex
      exact mem_collectAllKips.mpr ⟨output, List.mem_of_getElem? hget, kips_outputCall houtput⟩
    apply single
    apply kipsDeclared_call
    right
    exact (kipsDeclared_one rfl hten).append
      ((kipsDeclared_free rfl).append (kipsDeclared_free rfl))
  | @multisig id required rest span span' cs ck _ _ _ _ ihs ihk =>
    have hrest {es : List Expr} {code : List InstructionKind} (hes : ∀ e ∈ es, e ∈ rest)
        (h : KipsDeclared (collectAllKips es) code) :
        KipsDeclared (collectExprKips
          (.call (.ident id) (.integer required span' :: rest) span)) code := by
      apply kipsDeclared_call
      right
      rw [collectAllKips]
      exact h.mono fun kip hkip => List.mem_append_right _ (collectAllKips_subset hes hkip)
    have hget (n : Nat) : ∀ e ∈ rest[n]?.toList, e ∈ rest := by
      intro e he
      exact List.mem_of_getElem? (Option.mem_toList.mp he)
    apply single
    apply KipsDeclared.append
    · apply KipsDeclared.append
      · exact (hrest (hget 1) ihs).append (kipsDeclared_free rfl)
      · exact hrest (hget 0) ihk
    · exact kipsDeclared_free rfl
  | @unaryCall id args span kind code hkind _ ih =>
    apply single
    apply KipsDeclared.append
    · apply kipsDeclared_call
      right
      exact ih.mono fun kip hkip => collectAllKips_subset (fun e he => List.mem_of_mem_take he) hkip
    · apply kipsDeclared_call
      left
      unfold unaryBuiltin at hkind
      split at hkind <;> simp only [Option.some.injEq, reduceCtorEq] at hkind <;> subst hkind
      · rename_i hid
        apply kipsDeclared_one rfl
        rw [collectExprKips, hid]
        exact List.mem_singleton_self 16
      all_goals exact kipsDeclared_free rfl
  | call _ _ _ ihc iha =>
    apply single
    apply KipsDeclared.append
    · exact kipsDeclared_call (Or.inl (unsingle ihc))
    · exact kipsDeclared_call (Or.inr iha)
  | builtinField hkind => exact single (kipsDeclared_field hkind)
  | field _ _ _ ih =>
    apply single
    apply KipsDeclared.append
    · rw [collectExprKips]
      exact (unsingle ih).mono fun kip hkip => List.mem_append_right _ hkip
    · exact kipsDeclared_free rfl

end KaspaScript
