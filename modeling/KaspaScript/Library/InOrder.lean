import Mathlib.Data.List.Basic

namespace KaspaScript.Library

variable {α β : Type} {ok : α → β → Bool}

/-- Takes for each item of the first list the next item of the second that fits it. -/
def matchInOrder (ok : α → β → Bool) : List α → List β → Bool
  | [], _ => true
  | _ :: _, [] => false
  | a :: as, b :: bs => if ok a b then matchInOrder ok as bs else matchInOrder ok (a :: as) bs

/-- Every item of the first list fits an item of its own in the second, in the same order. -/
def InOrder (ok : α → β → Bool) (as : List α) (bs : List β) : Prop :=
  ∃ chosen, chosen.Sublist bs ∧ List.Forall₂ (fun a b => ok a b = true) as chosen

/-- The greedy choice finds a match whenever there is one. -/
theorem matchInOrder_iff (as : List α) (bs : List β) :
    matchInOrder ok as bs = true ↔ InOrder ok as bs := by
  induction bs generalizing as with
  | nil =>
    cases as with
    | nil => exact ⟨fun _ => ⟨[], List.Sublist.refl _, .nil⟩, fun _ => rfl⟩
    | cons a as =>
      simp only [matchInOrder, Bool.false_eq_true, false_iff]
      intro h
      obtain ⟨chosen, hsub, hall⟩ := h
      rw [List.sublist_nil.mp hsub] at hall
      cases hall
  | cons b bs ih =>
    cases as with
    | nil => exact ⟨fun _ => ⟨[], List.nil_sublist _, .nil⟩, fun _ => rfl⟩
    | cons a as =>
      rw [matchInOrder]
      split_ifs with hab
      · rw [ih]
        constructor
        · intro h
          obtain ⟨chosen, hsub, hall⟩ := h
          exact ⟨b :: chosen, hsub.cons_cons b, .cons hab hall⟩
        · intro h
          obtain ⟨chosen, hsub, hall⟩ := h
          cases hall with
          | cons hac hall =>
            exact ⟨_, hsub.of_cons_cons, hall⟩
      · rw [ih]
        constructor
        · intro h
          obtain ⟨chosen, hsub, hall⟩ := h
          exact ⟨chosen, hsub.cons b, hall⟩
        · intro h
          obtain ⟨chosen, hsub, hall⟩ := h
          refine ⟨chosen, ?_, hall⟩
          cases hsub with
          | cons _ hsub => exact hsub
          | cons_cons _ hsub =>
            cases hall with
            | cons hac _ => exact absurd hac hab

instance (as : List α) (bs : List β) : Decidable (InOrder ok as bs) :=
  decidable_of_iff _ (matchInOrder_iff as bs)

theorem matchInOrder_eq (as : List α) (bs : List β) :
    matchInOrder ok as bs = decide (InOrder ok as bs) := by
  rw [Bool.eq_iff_iff, decide_eq_true_iff, matchInOrder_iff]

end KaspaScript.Library
