import KaspaScript.Library.StackMachine
import Mathlib.Algebra.BigOperators.Group.List.Basic

namespace KaspaScript.Library

/-- Code that takes `pops` elements off a stack and leaves `pushes` in their place. -/
@[ext] structure StackEffect where
  pops : Nat
  pushes : Nat
  deriving DecidableEq, Repr

namespace StackEffect

variable {ι α : Type}

/-- One after the other: the second takes what the first left before it reaches below. -/
instance : Mul StackEffect :=
  ⟨fun a b => ⟨a.pops + (b.pops - a.pushes), b.pushes + (a.pushes - b.pops)⟩⟩

instance : One StackEffect := ⟨⟨0, 0⟩⟩

@[simp] theorem pops_mul (a b : StackEffect) : (a * b).pops = a.pops + (b.pops - a.pushes) := rfl

@[simp] theorem pushes_mul (a b : StackEffect) : (a * b).pushes = b.pushes + (a.pushes - b.pops) :=
  rfl

@[simp] theorem pops_one : (1 : StackEffect).pops = 0 := rfl

@[simp] theorem pushes_one : (1 : StackEffect).pushes = 0 := rfl

instance : Monoid StackEffect where
  mul_assoc a b c := by
    ext
    · simp only [pops_mul, pushes_mul]
      omega
    · simp only [pops_mul, pushes_mul]
      omega
  one_mul a := by
    ext <;> simp
  mul_one a := by
    ext <;> simp

/-- Pushes `n` elements and touches none below. -/
def leaves (n : Nat) : StackEffect := ⟨0, n⟩

@[simp] theorem leaves_mul_leaves (m n : Nat) : leaves m * leaves n = leaves (n + m) := by
  ext <;> simp [leaves]

/-- The depth after the code, where the stack was deep enough. -/
def depth (e : StackEffect) (d : Nat) : Option Nat :=
  if e.pops ≤ d then some (d - e.pops + e.pushes) else none

theorem depth_one (d : Nat) : (1 : StackEffect).depth d = some d := by
  simp [depth]

theorem depth_mul (a b : StackEffect) (d : Nat) : (a * b).depth d = (a.depth d).bind b.depth := by
  unfold depth
  by_cases ha : a.pops ≤ d
  · rw [if_pos ha, Option.bind_some]
    simp only [pops_mul, pushes_mul]
    by_cases hb : b.pops ≤ d - a.pops + a.pushes
    · rw [if_pos hb, if_pos (by omega), Option.some.injEq]
      omega
    · rw [if_neg hb, if_neg (by omega)]
  · rw [if_neg ha, if_neg (by simp only [pops_mul]; omega), Option.bind_none]

/-- Counting the elements along a run amounts to multiplying the effects. -/
theorem run_depth (arity : ι → StackEffect) (code : List ι) (d : Nat) :
    run (fun i => (arity i).depth) code d = (code.map arity).prod.depth d := by
  induction code generalizing d with
  | nil => exact (depth_one d).symm
  | cons i code ih =>
    rw [run_cons, List.map_cons, List.prod_cons, depth_mul]
    congr 1
    funext d'
    exact ih d'

theorem depth_zero_eq_some {e : StackEffect} {n : Nat} : e.depth 0 = some n ↔ e = leaves n := by
  obtain ⟨pops, pushes⟩ := e
  simp [depth, leaves]

/-- A step between stacks that does what the effect says. -/
structure Within (e : StackEffect) (s s' : List α) : Prop where
  deep : e.pops ≤ s.length
  top : ∃ items, items.length = e.pushes ∧ s' = items ++ s.drop e.pops

/-- The taken elements stand on top, and the new ones in their place. -/
theorem within_append (taken items rest : List α) :
    Within ⟨taken.length, items.length⟩ (taken ++ rest) (items ++ rest) :=
  ⟨by simp, items, rfl, by simp⟩

theorem within_one (s : List α) : Within 1 s s := ⟨by simp, [], rfl, by simp⟩

theorem Within.mul {a b : StackEffect} {s s' s'' : List α} (ha : Within a s s')
    (hb : Within b s' s'') : Within (a * b) s s'' := by
  obtain ⟨hdeep, items, hitems, rfl⟩ := ha
  obtain ⟨hdeep', items', hitems', rfl⟩ := hb
  simp only [List.length_append, List.length_drop] at hdeep'
  refine ⟨by simp only [pops_mul]; omega, items' ++ items.drop b.pops, ?_, ?_⟩
  · simp only [List.length_append, List.length_drop, pushes_mul]
    omega
  · rw [List.append_assoc, List.drop_append, List.drop_drop, pops_mul, hitems]

/-- A run whose steps keep to their effects keeps to the product. -/
theorem within_run {step : ι → List α → Option (List α)} {arity : ι → StackEffect}
    {code : List ι} (hstep : ∀ i ∈ code, ∀ s s', step i s = some s' → Within (arity i) s s')
    {s s' : List α} (h : run step code s = some s') : Within (code.map arity).prod s s' := by
  induction code generalizing s with
  | nil =>
    rw [run_nil, Option.some.injEq] at h
    exact h ▸ within_one s
  | cons i code ih =>
    obtain ⟨mid, hmid, hrest⟩ := Option.bind_eq_some_iff.mp h
    rw [List.map_cons, List.prod_cons]
    apply Within.mul (hstep i (by simp) s mid hmid)
    exact ih (fun j hj => hstep j (by simp [hj])) hrest

/-- Code that leaves `n` elements puts them on the untouched stack. -/
theorem Within.of_leaves {n : Nat} {s s' : List α} (h : Within (leaves n) s s') :
    ∃ items, items.length = n ∧ s' = items ++ s := by
  obtain ⟨_, items, hitems, hs'⟩ := h
  exact ⟨items, hitems, by simpa [leaves] using hs'⟩

/-- A step that looks only at the elements its effect takes: below them anything may stand. -/
def Local (e : StackEffect) (f : List α → Option (List α)) : Prop :=
  ∀ top, top.length = e.pops → ∃ out : Option (List α), (∀ items ∈ out, items.length = e.pushes) ∧
    ∀ rest, f (top ++ rest) = out.map (· ++ rest)

theorem local_one : Local (1 : StackEffect) (some : List α → Option (List α)) := by
  intro top htop
  obtain rfl : top = [] := List.eq_nil_of_length_eq_zero htop
  exact ⟨some [], by simp, fun rest => rfl⟩

theorem Local.mul {a b : StackEffect} {f g : List α → Option (List α)} (ha : Local a f)
    (hb : Local b g) : Local (a * b) fun s => (f s).bind g := by
  intro top htop
  rw [pops_mul] at htop
  obtain ⟨out, hlength, hout⟩ := ha (top.take a.pops) (by rw [List.length_take]; omega)
  have hfirst (rest : List α) : f (top ++ rest) = out.map (· ++ (top.drop a.pops ++ rest)) := by
    rw [← hout, ← List.append_assoc, List.take_append_drop]
  cases out with
  | none =>
    refine ⟨none, by simp, ?_⟩
    intro rest
    simp only [hfirst, Option.map_none, Option.bind_none]
  | some items =>
    have hitems : items.length = a.pushes := hlength items rfl
    -- the second step takes its elements off what the first left and off what it did not touch
    let mid := items ++ top.drop a.pops
    have hmid : mid.length = a.pushes + (top.length - a.pops) := by
      rw [List.length_append, List.length_drop, hitems]
    obtain ⟨out', hlength', hout'⟩ := hb (mid.take b.pops) (by rw [List.length_take]; omega)
    refine ⟨out'.map (· ++ mid.drop b.pops), ?_, ?_⟩
    · intro items' hmem
      obtain ⟨last, hlast, rfl⟩ := Option.map_eq_some_iff.mp hmem
      rw [List.length_append, hlength' last hlast, List.length_drop, pushes_mul]
      omega
    · intro rest
      have hsecond : g (mid ++ rest) = out'.map (· ++ (mid.drop b.pops ++ rest)) := by
        rw [← hout', ← List.append_assoc, List.take_append_drop]
      have hboth : (f (top ++ rest)).bind g = g (mid ++ rest) := by
        rw [hfirst, Option.map_some, Option.bind_some, ← List.append_assoc]
      simp only [hboth, hsecond, Option.map_map]
      congr 1
      funext last
      simp

/-- A run of local steps is local. -/
theorem local_run {step : ι → List α → Option (List α)} {arity : ι → StackEffect} {code : List ι}
    (hstep : ∀ i ∈ code, Local (arity i) (step i)) : Local (code.map arity).prod (run step code) := by
  induction code with
  | nil => exact local_one
  | cons i code ih =>
    rw [List.map_cons, List.prod_cons]
    exact (hstep i (by simp)).mul (ih fun j hj => hstep j (by simp [hj]))

/-- Code that takes nothing runs alike on every stack. -/
theorem Local.of_leaves {n : Nat} {f : List α → Option (List α)} (h : Local (leaves n) f) :
    (∀ items ∈ f [], items.length = n) ∧ ∀ s, f s = (f []).map (· ++ s) := by
  obtain ⟨out, hlength, hout⟩ := h [] rfl
  have hnil : f [] = out := by simpa using hout []
  rw [hnil]
  exact ⟨hlength, hout⟩

/-- One element becomes another, or the step fails. -/
theorem local_unary {f : List α → Option (List α)} (out : α → Option α)
    (h : ∀ a s, f (a :: s) = (out a).map (· :: s)) : Local ⟨1, 1⟩ f := by
  intro top htop
  obtain ⟨a, rfl⟩ := List.length_eq_one_iff.mp htop
  refine ⟨(out a).map ([·]), ?_, ?_⟩
  · simp
  · intro rest
    rw [List.singleton_append, h]
    cases out a <;> rfl

/-- Two elements become one, or the step fails. -/
theorem local_binary {f : List α → Option (List α)} (out : α → α → Option α)
    (h : ∀ b a s, f (b :: a :: s) = (out b a).map (· :: s)) : Local ⟨2, 1⟩ f := by
  intro top htop
  obtain ⟨b, a, rfl⟩ := List.length_eq_two.mp htop
  refine ⟨(out b a).map ([·]), ?_, ?_⟩
  · simp
  · intro rest
    rw [List.cons_append, List.singleton_append, h]
    cases out b a <;> rfl

/-- One element is pushed, or the step fails. -/
theorem local_push {f : List α → Option (List α)} (out : Option α)
    (h : ∀ s, f s = out.map (· :: s)) : Local (leaves 1) f := by
  intro top htop
  obtain rfl : top = [] := List.eq_nil_of_length_eq_zero htop
  refine ⟨out.map ([·]), ?_, ?_⟩
  · simp [leaves]
  · intro rest
    rw [List.nil_append, h]
    cases out <;> rfl

/-- One element is tested and dropped. -/
theorem local_test {f : List α → Option (List α)} (passes : α → Bool)
    (h : ∀ a s, f (a :: s) = if passes a then some s else none) : Local ⟨1, 0⟩ f := by
  intro top htop
  obtain ⟨a, rfl⟩ := List.length_eq_one_iff.mp htop
  refine ⟨if passes a then some [] else none, ?_, ?_⟩
  · cases passes a <;> simp
  · intro rest
    rw [List.singleton_append, h]
    cases passes a <;> rfl

end StackEffect

end KaspaScript.Library
