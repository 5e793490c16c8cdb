import KaspaScript.Library.Fallible

namespace KaspaScript.Library

variable {ε α σ : Type} [DecidableEq σ]

/-- Feeds a fallible step its own result, at most `n` times and until a round returns what it was
given; the output of the last round. -/
def rounds (step : σ → Except ε (α × σ)) : Nat → σ → Option α → Except ε (Option α)
  | 0, _, last => .ok last
  | n + 1, s, _ => do
      let next ← step s
      if next.2 = s then pure (some next.1) else rounds step n next.2 (some next.1)

section

variable {step : σ → Except ε (α × σ)} {n : Nat} {s : σ} {last : Option α} {out : Option α}

theorem rounds_succ :
    rounds step (n + 1) s last = .ok out ↔
      ∃ a next, step s = .ok (a, next) ∧
        if next = s then some a = out else rounds step n next (some a) = .ok out := by
  simp only [rounds, bind_eq_ok]
  constructor
  · intro ⟨⟨a, next⟩, hstep, h⟩
    refine ⟨a, next, hstep, ?_⟩
    split_ifs with hsame
    · rwa [if_pos hsame, pure_eq_ok] at h
    · rwa [if_neg hsame] at h
  · intro ⟨a, next, hstep, h⟩
    refine ⟨⟨a, next⟩, hstep, ?_⟩
    split_ifs at h with hsame
    · rwa [if_pos hsame, pure_eq_ok]
    · rwa [if_neg hsame]

/-- What every round's output has, the last one has. -/
theorem of_rounds {Q : α → Prop} (hstep : ∀ s a next, step s = .ok (a, next) → Q a) {a : α}
    (h : rounds step n s last = .ok (some a)) (hlast : ∀ b, last = some b → Q b) : Q a := by
  induction n generalizing s last with
  | zero => exact hlast a (Except.ok.inj h)
  | succ n ih =>
    obtain ⟨b, next, hb, h⟩ := rounds_succ.mp h
    split_ifs at h with hsame
    · rw [← Option.some.inj h]
      exact hstep s b next hb
    · apply ih h
      intro c hc
      rw [← Option.some.inj hc]
      exact hstep s b next hb

end

end KaspaScript.Library
