import KaspaScript.Library.Fallible

namespace KaspaScript.Library

variable {ε α β γ μ : Type}

/-- The run fails as the mark says, and succeeds where there is none. -/
def Fails (fail : μ → ε → Prop) (x : Except ε α) : Option μ → Prop
  | none => ∃ a, x = .ok a
  | some mark => ∃ e, x = .error e ∧ fail mark e

def firstMark : List (Option μ) → Option μ
  | [] => none
  | mark :: rest => mark.or (firstMark rest)

section

variable {fail : μ → ε → Prop} {x : Except ε α} {mark mark' : Option μ}

theorem fails_ok (a : α) : Fails fail (.ok a : Except ε α) none := ⟨a, rfl⟩

/-- Of two runs the first failure counts. -/
theorem Fails.bind {f : α → Except ε β} (h : Fails fail x mark)
    (hf : ∀ a, Fails fail (f a) mark') : Fails fail (x >>= f) (mark.or mark') := by
  cases mark with
  | none =>
    obtain ⟨a, rfl⟩ := h
    exact hf a
  | some mark =>
    obtain ⟨e, rfl, he⟩ := h
    exact ⟨e, rfl, he⟩

/-- A run that only works on the result fails where the result does. -/
theorem Fails.then {f : α → Except ε β} (h : Fails fail x mark)
    (hf : ∀ a, Fails fail (f a) none) : Fails fail (x >>= f) mark := by
  have hboth := h.bind hf
  rwa [Option.or_none] at hboth

theorem fails_joinAll {xs : List (Except ε (List α))} {marks : List (Option μ)}
    (h : List.Forall₂ (Fails fail) xs marks) : Fails fail (joinAll xs) (firstMark marks) := by
  induction h with
  | nil => exact fails_ok []
  | cons hx _ ih =>
    apply hx.bind
    intro first
    exact ih.then fun others => fails_ok (first ++ others)

theorem fails_mapM {f : α → Except ε β} {xs : List α} {marks : α → Option μ}
    (h : ∀ x ∈ xs, Fails fail (f x) (marks x)) :
    Fails fail (xs.mapM f) (firstMark (xs.map marks)) := by
  induction xs with
  | nil => exact fails_ok []
  | cons x xs ih =>
    obtain ⟨hx, hxs⟩ := List.forall_mem_cons.mp h
    rw [List.mapM_cons, List.map_cons, firstMark]
    apply hx.bind
    intro first
    exact (ih hxs).then fun others => fails_ok (first :: others)

end

end KaspaScript.Library
