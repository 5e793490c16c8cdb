import Mathlib.Data.List.Basic

namespace KaspaScript.Library

variable {α : Type} {key : α → Nat}

/-- The last of the elements whose key is largest. -/
def maxByKey (key : α → Nat) : List α → Option α
  | [] => none
  | x :: rest =>
      match maxByKey key rest with
      | none => some x
      | some best => if key best < key x then some x else some best

theorem maxByKey_eq_none {xs : List α} : maxByKey key xs = none ↔ xs = [] := by
  cases xs with
  | nil => simp [maxByKey]
  | cons x rest =>
    simp only [maxByKey, reduceCtorEq, iff_false]
    cases maxByKey key rest with
    | none => simp
    | some best => by_cases h : key best < key x <;> simp [h]

theorem mem_of_maxByKey {xs : List α} {best : α} (h : maxByKey key xs = some best) :
    best ∈ xs := by
  induction xs generalizing best with
  | nil => simp [maxByKey] at h
  | cons x rest ih =>
    rw [maxByKey] at h
    cases hrest : maxByKey key rest with
    | none =>
      rw [hrest, Option.some.injEq] at h
      simp [h]
    | some other =>
      simp only [hrest] at h
      split_ifs at h
      · rw [Option.some.injEq] at h
        simp [h]
      · rw [Option.some.injEq] at h
        rw [← h]
        exact List.mem_cons_of_mem _ (ih hrest)

theorem key_le_of_maxByKey {xs : List α} {best : α} (h : maxByKey key xs = some best) :
    ∀ x ∈ xs, key x ≤ key best := by
  induction xs generalizing best with
  | nil => simp
  | cons x rest ih =>
    rw [maxByKey] at h
    rw [List.forall_mem_cons]
    cases hrest : maxByKey key rest with
    | none =>
      rw [hrest, Option.some.injEq] at h
      simp [h, maxByKey_eq_none.mp hrest]
    | some other =>
      simp only [hrest] at h
      have hother := ih hrest
      split_ifs at h with hless <;> rw [Option.some.injEq] at h <;> subst h
      · refine ⟨Nat.le_refl _, ?_⟩
        intro y hy
        have hle := hother y hy
        omega
      · exact ⟨by omega, hother⟩

/-- The best element reaches a bound exactly when some element does. -/
theorem maxByKey_reaches {xs : List α} {n : Nat} :
    (∃ best ∈ maxByKey key xs, n ≤ key best) ↔ ∃ x ∈ xs, n ≤ key x := by
  constructor
  · intro h
    obtain ⟨best, hbest, hn⟩ := h
    exact ⟨best, mem_of_maxByKey hbest, hn⟩
  · intro h
    obtain ⟨x, hx, hn⟩ := h
    cases hbest : maxByKey key xs with
    | none =>
      rw [maxByKey_eq_none.mp hbest] at hx
      cases hx
    | some best => exact ⟨best, rfl, Nat.le_trans hn (key_le_of_maxByKey hbest x hx)⟩

/-- More elements have no worse a best one. -/
theorem maxByKey_mono {xs ys : List α} (h : ∀ x ∈ xs, x ∈ ys) :
    ∀ best ∈ maxByKey key xs, ∃ other ∈ maxByKey key ys, key best ≤ key other := by
  intro best hbest
  exact maxByKey_reaches.mpr ⟨best, h best (mem_of_maxByKey hbest), Nat.le_refl _⟩

/-- Lists with the same elements have best elements of one key. -/
theorem map_maxByKey_eq {xs ys : List α} (h : ∀ x, x ∈ xs ↔ x ∈ ys) :
    (maxByKey key xs).map key = (maxByKey key ys).map key := by
  cases hbest : maxByKey key xs with
  | none =>
    have hys : ys = [] := by
      apply List.eq_nil_iff_forall_not_mem.mpr
      intro y hy
      rw [← h, maxByKey_eq_none.mp hbest] at hy
      cases hy
    rw [hys]
    rfl
  | some best =>
    obtain ⟨other, hother, hle⟩ := maxByKey_mono (fun x => (h x).mp) best hbest
    obtain ⟨best', hbest', hge⟩ := maxByKey_mono (fun x => (h x).mpr) other hother
    rw [hbest, Option.mem_some_iff] at hbest'
    rw [Option.mem_def.mp hother, Option.map_some, Option.map_some, Option.some.injEq]
    subst hbest'
    exact Nat.le_antisymm hle hge

end KaspaScript.Library
