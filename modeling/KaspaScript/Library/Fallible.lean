import Mathlib.Data.List.Forall2
import Mathlib.Data.List.Basic

namespace KaspaScript.Library

variable {ε α β : Type}

/-- A sequence of fallible steps succeeds when each of them does. -/
theorem bind_eq_ok {x : Except ε α} {f : α → Except ε β} {b : β} :
    (x >>= f) = .ok b ↔ ∃ a, x = .ok a ∧ f a = .ok b := by
  cases x <;> simp [bind, Except.bind]

theorem map_eq_ok {x : Except ε α} {f : α → β} {b : β} :
    (f <$> x) = .ok b ↔ ∃ a, x = .ok a ∧ f a = b := by
  cases x <;> simp [Functor.map, Except.map]

theorem pure_eq_ok {a b : α} : (pure a : Except ε α) = .ok b ↔ a = b := by
  simp [pure, Except.pure]

theorem mapError_eq_ok {δ : Type} {f : ε → δ} {x : Except ε α} {a : α} :
    x.mapError f = .ok a ↔ x = .ok a := by
  cases x <;> simp [Except.mapError]

@[simp] theorem ok_bind (a : α) (f : α → Except ε β) : (Except.ok a >>= f) = f a := rfl

@[simp] theorem error_bind (e : ε) (f : α → Except ε β) :
    ((Except.error e : Except ε α) >>= f) = .error e := rfl

theorem toOption_map_eq_some {x : Except ε α} {f : α → β} {b : β}
    (h : x.toOption.map f = some b) : ∃ a, x = .ok a ∧ f a = b := by
  cases x with
  | ok a => exact ⟨a, rfl, Option.some.inj h⟩
  | error e => exact absurd h (by simp [Except.toOption])

theorem mapM_cons_eq_ok {f : α → Except ε β} {a : α} {rest : List α} {out : List β} :
    (a :: rest).mapM f = .ok out ↔
      ∃ b others, f a = .ok b ∧ rest.mapM f = .ok others ∧ out = b :: others := by
  rw [List.mapM_cons]
  simp only [bind_eq_ok, pure_eq_ok]
  constructor
  · intro ⟨b, hb, others, hrest, hout⟩
    exact ⟨b, others, hb, hrest, hout.symm⟩
  · intro ⟨b, others, hb, hrest, hout⟩
    exact ⟨b, hb, others, hrest, hout.symm⟩

theorem mapM_isOk {f : α → Except ε β} {xs : List α} :
    (∃ out, xs.mapM f = .ok out) ↔ ∀ x ∈ xs, ∃ b, f x = .ok b := by
  induction xs with
  | nil => simp [pure_eq_ok]
  | cons a rest ih =>
    rw [List.forall_mem_cons, ← ih]
    constructor
    · intro ⟨out, hout⟩
      obtain ⟨b, others, hb, hrest, _⟩ := mapM_cons_eq_ok.mp hout
      exact ⟨⟨b, hb⟩, ⟨others, hrest⟩⟩
    · intro ⟨⟨b, hb⟩, ⟨others, hrest⟩⟩
      exact ⟨_, mapM_cons_eq_ok.mpr ⟨b, others, hb, hrest, rfl⟩⟩

/-- A check of every element passes exactly when each passes. -/
theorem forM_eq_ok {f : α → Except ε Unit} {xs : List α} :
    xs.forM f = .ok () ↔ ∀ x ∈ xs, f x = .ok () := by
  induction xs with
  | nil => simp [List.forM, pure, Except.pure]
  | cons x xs ih =>
    rw [List.forM_eq_forM] at ih
    rw [List.forM_eq_forM, List.forM_cons, List.forall_mem_cons, ← ih]
    cases f x <;> simp [bind, Except.bind]

/-- The outputs of a successful `mapM` stand for the inputs one by one. -/
theorem forall₂_of_mapM {f : α → Except ε β} {xs : List α} {out : List β}
    (h : xs.mapM f = .ok out) : List.Forall₂ (fun a b => f a = .ok b) xs out := by
  induction xs generalizing out with
  | nil =>
    rw [List.mapM_nil, pure_eq_ok] at h
    subst h
    exact .nil
  | cons a rest ih =>
    obtain ⟨b, others, hb, hrest, rfl⟩ := mapM_cons_eq_ok.mp h
    exact .cons hb (ih hrest)

/-- A relation to the outputs, asked of each input and of what the step makes of it. -/
theorem forall₂_mapM_iff {f : α → Except ε β} {xs : List α} {out : List β} {R : α → β → Prop}
    (h : xs.mapM f = .ok out) :
    List.Forall₂ R xs out ↔ ∀ x ∈ xs, ∀ b, f x = .ok b → R x b := by
  induction xs generalizing out with
  | nil =>
    rw [List.mapM_nil, pure_eq_ok] at h
    subst h
    simp
  | cons a rest ih =>
    obtain ⟨b, others, hb, hrest, rfl⟩ := mapM_cons_eq_ok.mp h
    rw [List.forall₂_cons, ih hrest, List.forall_mem_cons]
    simp [hb]

/-- Two traversals of one list: what is read off their outputs agrees if it does item by item. -/
theorem flatMap_of_mapM {ε' γ δ : Type} {f : α → Except ε β} {g : α → Except ε' γ} {xs : List α}
    {ys : List β} {zs : List γ} {u : β → List δ} {v : γ → List δ} (hf : xs.mapM f = .ok ys)
    (hg : xs.mapM g = .ok zs) (h : ∀ x y z, f x = .ok y → g x = .ok z → u y = v z) :
    ys.flatMap u = zs.flatMap v := by
  induction xs generalizing ys zs with
  | nil =>
    rw [List.mapM_nil, pure_eq_ok] at hf hg
    subst hf hg
    rfl
  | cons a rest ih =>
    obtain ⟨y, ys', hy, hys, rfl⟩ := mapM_cons_eq_ok.mp hf
    obtain ⟨z, zs', hz, hzs, rfl⟩ := mapM_cons_eq_ok.mp hg
    rw [List.flatMap_cons, List.flatMap_cons, h a y z hy hz, ih hys hzs]

/-- What stands for one another also stands in the two lists. -/
theorem forall₂_mem {α β : Type} {R : α → β → Prop} {xs : List α} {ys : List β}
    (h : List.Forall₂ R xs ys) : List.Forall₂ (fun x y => x ∈ xs ∧ y ∈ ys ∧ R x y) xs ys := by
  induction h with
  | nil => exact .nil
  | cons hfirst _ ih =>
    refine .cons ⟨by simp, by simp, hfirst⟩ (ih.imp ?_)
    intro x y hxy
    exact ⟨by simp [hxy.1], by simp [hxy.2.1], hxy.2.2⟩

theorem exists_of_forall₂ {α β : Type} {R : α → β → Prop} {xs : List α} {ys : List β}
    (h : List.Forall₂ R xs ys) {y : β} (hy : y ∈ ys) : ∃ x ∈ xs, R x y := by
  induction h with
  | nil => cases hy
  | cons hfirst _ ih =>
    rcases List.mem_cons.mp hy with rfl | hy
    · exact ⟨_, by simp, hfirst⟩
    · obtain ⟨x, hx, hxy⟩ := ih hy
      exact ⟨x, by simp [hx], hxy⟩

theorem exists_of_mem_mapM {f : α → Except ε β} {xs : List α} {out : List β}
    (h : xs.mapM f = .ok out) {b : β} (hb : b ∈ out) : ∃ a ∈ xs, f a = .ok b := by
  induction xs generalizing out with
  | nil =>
    rw [List.mapM_nil, pure_eq_ok] at h
    subst h
    cases hb
  | cons a rest ih =>
    obtain ⟨b', others, ha, hrest, rfl⟩ := mapM_cons_eq_ok.mp h
    rcases List.mem_cons.mp hb with rfl | hb
    · exact ⟨a, by simp, ha⟩
    · obtain ⟨a', ha', hf⟩ := ih hrest hb
      exact ⟨a', by simp [ha'], hf⟩

theorem exists_mapM_of_mem {f : α → Except ε β} {xs : List α} {out : List β}
    (h : xs.mapM f = .ok out) {a : α} (ha : a ∈ xs) : ∃ b ∈ out, f a = .ok b := by
  induction xs generalizing out with
  | nil => cases ha
  | cons a' rest ih =>
    obtain ⟨b', others, hb, hrest, rfl⟩ := mapM_cons_eq_ok.mp h
    rcases List.mem_cons.mp ha with rfl | ha
    · exact ⟨b', by simp, hb⟩
    · obtain ⟨b, hmem, hf⟩ := ih hrest ha
      exact ⟨b, by simp [hmem], hf⟩

/-- Runs the steps in order and joins their outputs. -/
def joinAll : List (Except ε (List α)) → Except ε (List α)
  | [] => .ok []
  | x :: rest => do
      let first ← x
      let others ← joinAll rest
      pure (first ++ others)

@[simp] theorem joinAll_nil : joinAll ([] : List (Except ε (List α))) = .ok [] := rfl

@[simp] theorem joinAll_singleton (x : Except ε (List α)) : joinAll [x] = x := by
  cases x <;> simp [joinAll, pure, Except.pure]

theorem joinAll_cons {x : Except ε (List α)} {rest : List (Except ε (List α))} {out : List α} :
    joinAll (x :: rest) = .ok out ↔
      ∃ first others, x = .ok first ∧ joinAll rest = .ok others ∧ out = first ++ others := by
  simp only [joinAll, bind_eq_ok, pure_eq_ok]
  constructor
  · rintro ⟨first, hx, others, hrest, rfl⟩
    exact ⟨first, others, hx, hrest, rfl⟩
  · rintro ⟨first, others, hx, hrest, rfl⟩
    exact ⟨first, hx, others, hrest, rfl⟩

theorem joinAll_isOk {xs : List (Except ε (List α))} :
    (∃ out, joinAll xs = .ok out) ↔ ∀ x ∈ xs, ∃ a, x = .ok a := by
  induction xs with
  | nil => simp
  | cons x xs ih =>
    have hcons : (∃ out, joinAll (x :: xs) = .ok out) ↔
        (∃ a, x = .ok a) ∧ ∃ out, joinAll xs = .ok out := by
      simp only [joinAll_cons]
      constructor
      · intro ⟨_, first, others, hx, hxs, _⟩
        exact ⟨⟨first, hx⟩, ⟨others, hxs⟩⟩
      · intro ⟨⟨first, hx⟩, ⟨others, hxs⟩⟩
        exact ⟨_, first, others, hx, hxs, rfl⟩
    rw [hcons, ih, List.forall_mem_cons]

theorem exists_of_mem_joinAll {xs : List (Except ε (List α))} {out : List α}
    (h : joinAll xs = .ok out) {b : α} (hb : b ∈ out) : ∃ part, .ok part ∈ xs ∧ b ∈ part := by
  induction xs generalizing out with
  | nil =>
    rw [joinAll_nil, Except.ok.injEq] at h
    subst h
    cases hb
  | cons x rest ih =>
    obtain ⟨first, others, rfl, hrest, rfl⟩ := joinAll_cons.mp h
    rcases List.mem_append.mp hb with hb | hb
    · exact ⟨first, by simp, hb⟩
    · obtain ⟨part, hpart, hmem⟩ := ih hrest hb
      exact ⟨part, by simp [hpart], hmem⟩

/-- What is joined, part by part. -/
theorem parts_of_joinAll {xs : List (Except ε (List α))} {out : List α}
    (h : joinAll xs = .ok out) :
    ∃ parts, List.Forall₂ (fun x part => x = .ok part) xs parts ∧ out = parts.flatten := by
  induction xs generalizing out with
  | nil => exact ⟨[], .nil, (Except.ok.inj h).symm⟩
  | cons x xs ih =>
    obtain ⟨first, others, hfirst, hothers, rfl⟩ := joinAll_cons.mp h
    obtain ⟨parts, hparts, rfl⟩ := ih hothers
    exact ⟨first :: parts, .cons hfirst hparts, rfl⟩

theorem joinAll_append {xs ys : List (Except ε (List α))} {out : List α} :
    joinAll (xs ++ ys) = .ok out ↔
      ∃ first others, joinAll xs = .ok first ∧ joinAll ys = .ok others ∧ out = first ++ others := by
  induction xs generalizing out with
  | nil => simp
  | cons x xs ih =>
    simp only [List.cons_append, joinAll_cons, ih]
    constructor
    · rintro ⟨a, _, hx, ⟨b, c, hxs, hys, rfl⟩, rfl⟩
      exact ⟨a ++ b, c, ⟨a, b, hx, hxs, rfl⟩, hys, by simp⟩
    · rintro ⟨_, c, ⟨a, b, hx, hxs, rfl⟩, hys, rfl⟩
      exact ⟨a, b ++ c, hx, ⟨b, c, hxs, hys, rfl⟩, by simp⟩

/-- The joined outputs of what one traversal makes of each item are what another one made of it. -/
theorem joinAll_of_mapM {ε₁ ε₂ γ δ : Type} {f : α → Except ε₁ β} {g : α → Except ε₂ γ}
    {xs : List α} {ys : List β} {zs : List γ} {u : β → List (Except ε (List δ))} {v : γ → List δ}
    (hf : xs.mapM f = .ok ys) (hg : xs.mapM g = .ok zs)
    (h : ∀ x y z, f x = .ok y → g x = .ok z → joinAll (u y) = .ok (v z)) :
    joinAll (ys.flatMap u) = .ok (zs.flatMap v) := by
  induction xs generalizing ys zs with
  | nil =>
    rw [List.mapM_nil, pure_eq_ok] at hf hg
    subst hf hg
    rfl
  | cons a rest ih =>
    obtain ⟨y, ys', hy, hys, rfl⟩ := mapM_cons_eq_ok.mp hf
    obtain ⟨z, zs', hz, hzs, rfl⟩ := mapM_cons_eq_ok.mp hg
    rw [List.flatMap_cons, List.flatMap_cons]
    exact joinAll_append.mpr ⟨_, _, h a y z hy hz, ih hys hzs, rfl⟩

/-- Both fail, or both succeed with related outputs. -/
def Alike {ε' : Type} (R : α → β → Prop) : Except ε α → Except ε' β → Prop
  | .ok a, .ok b => R a b
  | .error _, .error _ => True
  | _, _ => False

section

variable {ε' γ δ : Type} {R : α → β → Prop} {S : γ → δ → Prop}

theorem Alike.bind {x : Except ε α} {y : Except ε' β} {f : α → Except ε γ} {g : β → Except ε' δ}
    (h : Alike R x y) (hnext : ∀ a b, R a b → Alike S (f a) (g b)) :
    Alike S (x >>= f) (y >>= g) := by
  cases x <;> cases y
  · trivial
  · cases h
  · cases h
  · exact hnext _ _ h

theorem alike_pure {a : α} {b : β} (h : R a b) :
    Alike R (pure a : Except ε α) (pure b : Except ε' β) := h

theorem alike_refl (hrefl : ∀ a : α, T a a) (x : Except ε α) : Alike T x x := by
  cases x with
  | ok a => exact hrefl a
  | error e => trivial

theorem Alike.isOk {x : Except ε α} {y : Except ε' β} (h : Alike R x y) :
    (∃ a, x = .ok a) ↔ ∃ b, y = .ok b := by
  cases x <;> cases y <;> simp_all [Alike]

theorem Alike.of_ok {a : α} {b : β} {x : Except ε α} {y : Except ε' β} (h : Alike R x y)
    (hx : x = .ok a) (hy : y = .ok b) : R a b := by
  subst hx hy
  exact h

theorem alike_mapM {f : α → Except ε γ} {g : β → Except ε' δ} {xs : List α} {ys : List β}
    (h : List.Forall₂ (fun x y => Alike S (f x) (g y)) xs ys) :
    Alike (List.Forall₂ S) (xs.mapM f) (ys.mapM g) := by
  induction h with
  | nil => exact List.Forall₂.nil
  | cons hfirst _ ih =>
    rw [List.mapM_cons, List.mapM_cons]
    apply hfirst.bind
    intro a b hab
    apply ih.bind
    intro as bs habs
    exact alike_pure (.cons hab habs)

theorem alike_joinAll {T : List α → List β → Prop} (hnil : T [] [])
    (happend : ∀ {a b c d}, T a b → T c d → T (a ++ c) (b ++ d))
    {xs : List (Except ε (List α))} {ys : List (Except ε' (List β))}
    (h : List.Forall₂ (Alike T) xs ys) : Alike T (joinAll xs) (joinAll ys) := by
  induction h with
  | nil => exact hnil
  | cons hfirst _ ih =>
    apply hfirst.bind
    intro a b hab
    apply ih.bind
    intro c d hcd
    exact alike_pure (happend hab hcd)

end

end KaspaScript.Library
