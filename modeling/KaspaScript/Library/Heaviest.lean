import Mathlib.Algebra.BigOperators.Group.List.Basic
import Mathlib.Algebra.Order.BigOperators.Group.List
import Mathlib.Data.List.Perm.Subperm
import Mathlib.Data.List.Sort

namespace KaspaScript.Library

variable {α M : Type} [AddCommMonoid M]

/-- The weights of a list added up. -/
def weightSum (weight : α → M) (items : List α) : M := (items.map weight).sum

section

variable {weight : α → M}

@[simp] theorem weightSum_nil : weightSum weight [] = 0 := rfl

@[simp] theorem weightSum_cons (item : α) (items : List α) :
    weightSum weight (item :: items) = weight item + weightSum weight items := by
  simp [weightSum]

@[simp] theorem weightSum_append (items rest : List α) :
    weightSum weight (items ++ rest) = weightSum weight items + weightSum weight rest := by
  simp [weightSum]

theorem weightSum_perm {items items' : List α} (h : items.Perm items') :
    weightSum weight items = weightSum weight items' :=
  (h.map weight).sum_eq

variable [PartialOrder M]

/-- The heaviest come first. -/
def Descending (weight : α → M) (items : List α) : Prop :=
  items.Pairwise fun a b => weight b ≤ weight a

variable [IsOrderedAddMonoid M]

/-- A heavier item in front makes the first `n` heavier. -/
theorem weightSum_take_le_cons {item : α} {items : List α}
    (h : Descending weight (item :: items)) (n : Nat) (hn : n ≤ items.length) :
    weightSum weight (items.take n) ≤ weightSum weight ((item :: items).take n) := by
  induction items generalizing item n with
  | nil =>
    obtain rfl : n = 0 := by simpa using hn
    simp
  | cons second items ih =>
    cases n with
    | zero => simp
    | succ n =>
      obtain ⟨hfirst, hrest⟩ := List.pairwise_cons.mp h
      have hshift := ih hrest n (by simpa using hn)
      rw [List.take_succ_cons, List.take_succ_cons, weightSum_cons, weightSum_cons]
      exact add_le_add (hfirst second (by simp)) hshift

/-- No part of a descending list is heavier than as many of its first items. -/
theorem weightSum_le_take {part items : List α} (hdescending : Descending weight items)
    (h : part.Subperm items) :
    weightSum weight part ≤ weightSum weight (items.take part.length) := by
  obtain ⟨chosen, hperm, hchosen⟩ := h
  rw [← weightSum_perm hperm, ← hperm.length_eq]
  clear hperm part
  induction hchosen with
  | slnil => simp
  | @cons chosen items item hsub ih =>
    have htail := ih (List.pairwise_cons.mp hdescending).2
    exact htail.trans (weightSum_take_le_cons hdescending _ hsub.length_le)
  | @cons_cons chosen items item hsub ih =>
    have htail := ih (List.pairwise_cons.mp hdescending).2
    rw [List.length_cons, List.take_succ_cons, weightSum_cons, weightSum_cons]
    exact add_le_add le_rfl htail

theorem weightSum_take_mono (hweight : ∀ item, 0 ≤ weight item) (items : List α) {m n : Nat}
    (h : m ≤ n) : weightSum weight (items.take m) ≤ weightSum weight (items.take n) := by
  have hlonger : items.take n = items.take m ++ (items.take n).drop m := by
    have hsplit := List.take_append_drop m (items.take n)
    rw [List.take_take, Nat.min_eq_left h] at hsplit
    exact hsplit.symm
  have hrest : 0 ≤ weightSum weight ((items.take n).drop m) := by
    apply List.sum_nonneg
    intro x hx
    obtain ⟨item, _, rfl⟩ := List.mem_map.mp hx
    exact hweight item
  rw [hlonger, weightSum_append]
  exact le_add_of_nonneg_right hrest

/-- A part that outweighs the first `n` of a descending list has more than `n` items. -/
theorem length_of_weightSum_lt (hweight : ∀ item, 0 ≤ weight item) {part items : List α}
    (hdescending : Descending weight items) (h : part.Subperm items) {n : Nat}
    (hlt : weightSum weight (items.take n) < weightSum weight part) : n < part.length := by
  by_contra hshort
  have hpart := weightSum_le_take hdescending h
  have hmono := weightSum_take_mono hweight items (Nat.le_of_not_lt hshort)
  exact lt_irrefl _ (hlt.trans_le (hpart.trans hmono))

end

end KaspaScript.Library
