import KaspaScript.Meaning.Eval

namespace KaspaScript

/-- The boolean meaning of an expression, over the truth of its parts that are no connective. -/
def holdsUnder (atom : Expr → Bool) : Expr → Bool
  | .unary .not e _ => !holdsUnder atom e
  | .binary left .and right _ => holdsUnder atom left && holdsUnder atom right
  | .binary left .or right _ => holdsUnder atom left || holdsUnder atom right
  | e => atom e

/-- The parts of a conjunction, in order. -/
def conjuncts : Expr → List Expr
  | .binary left .and right _ => conjuncts left ++ conjuncts right
  | e => [e]

def NoConjunction (e : Expr) : Prop := ∀ left right span, e ≠ .binary left .and right span

/-- Induction along the conjunctions at the top of an expression. -/
theorem conjunction_induct {P : Expr → Prop} (leaf : ∀ e, NoConjunction e → P e)
    (and : ∀ left right span, P left → P right → P (.binary left .and right span)) : ∀ e, P e := by
  intro e
  induction e using Expr.induct with
  | binary left op right span ihl ihr =>
    by_cases hop : op = .and
    · subst hop
      exact and left right span ihl ihr
    · apply leaf
      intro left' right' span' heq
      cases heq
      exact hop rfl
  | _ => exact leaf _ (by simp [NoConjunction])

theorem conjuncts_leaf {e : Expr} (h : NoConjunction e) : conjuncts e = [e] := by
  rw [conjuncts]
  exact h

theorem holdsUnder_conjuncts {atom : Expr → Bool} {e : Expr} :
    holdsUnder atom e = true → ∀ part ∈ conjuncts e, holdsUnder atom part = true := by
  induction e using conjunction_induct with
  | leaf e he =>
    intro h part hpart
    rw [conjuncts_leaf he, List.mem_singleton] at hpart
    exact hpart ▸ h
  | and left right span ihl ihr =>
    intro h part hpart
    rw [holdsUnder, Bool.and_eq_true] at h
    rw [conjuncts, List.mem_append] at hpart
    rcases hpart with hpart | hpart
    · exact ihl h.1 part hpart
    · exact ihr h.2 part hpart

theorem evalBinary_and {a b : Val} {c : Bool} (h : evalBinary .and a b = some (.bool c)) :
    ∃ p q, a = .bool p ∧ b = .bool q ∧ c = (p && q) := by
  cases a with
  | bool p =>
    cases b with
    | bool q =>
      simp only [evalBinary, Option.some.injEq, Val.bool.injEq] at h
      exact ⟨p, q, rfl, rfl, h.symm⟩
    | _ => cases h
  | _ => cases b <;> cases h

theorem evalBinary_or {a b : Val} {c : Bool} (h : evalBinary .or a b = some (.bool c)) :
    ∃ p q, a = .bool p ∧ b = .bool q ∧ c = (p || q) := by
  cases a with
  | bool p =>
    cases b with
    | bool q =>
      simp only [evalBinary, Option.some.injEq, Val.bool.injEq] at h
      exact ⟨p, q, rfl, rfl, h.symm⟩
    | _ => cases h
  | _ => cases b <;> cases h

theorem evalUnary_not {a : Val} {c : Bool} (h : evalUnary .not a = some (.bool c)) :
    ∃ p, a = .bool p ∧ c = !p := by
  cases a with
  | bool p =>
    simp only [evalUnary, Option.some.injEq, Val.bool.injEq] at h
    exact ⟨p, rfl, h.symm⟩
  | _ => cases h

/-- The atoms that evaluate to true. -/
def Context.holds (cx : Context) (e : Expr) : Bool := decide (cx.eval e = some (.bool true))

/-- The evaluation of an expression agrees with its boolean meaning. -/
theorem holdsUnder_of_eval (cx : Context) (e : Expr) :
    ∀ b, cx.eval e = some (.bool b) → holdsUnder cx.holds e = b := by
  have atom {e : Expr} (hatom : holdsUnder cx.holds e = cx.holds e) (b : Bool)
      (h : cx.eval e = some (.bool b)) : holdsUnder cx.holds e = b := by
    rw [hatom, Context.holds, h]
    cases b <;> simp
  induction e using Expr.induct with
  | unary op e span ih =>
    intro b h
    rw [Context.eval] at h
    obtain ⟨v, hv, h⟩ := Option.bind_eq_some_iff.mp h
    cases op with
    | not =>
      obtain ⟨p, rfl, rfl⟩ := evalUnary_not h
      rw [holdsUnder, ih p hv]
    | negate => cases v <;> cases h
  | binary left op right span ihl ihr =>
    intro b h
    have hpair (hop : op ≠ .greaterEqual) : ∃ l r, cx.eval left = some l ∧
        cx.eval right = some r ∧ evalBinary op l r = some (.bool b) := by
      rw [Context.eval, if_neg (by tauto)] at h
      obtain ⟨l, hl, h⟩ := Option.bind_eq_some_iff.mp h
      obtain ⟨r, hr, h⟩ := Option.bind_eq_some_iff.mp h
      exact ⟨l, r, hl, hr, h⟩
    cases op with
    | and =>
      obtain ⟨l, r, hl, hr, hvalue⟩ := hpair (by decide)
      obtain ⟨p, q, rfl, rfl, rfl⟩ := evalBinary_and hvalue
      rw [holdsUnder, ihl p hl, ihr q hr]
    | or =>
      obtain ⟨l, r, hl, hr, hvalue⟩ := hpair (by decide)
      obtain ⟨p, q, rfl, rfl, rfl⟩ := evalBinary_or hvalue
      rw [holdsUnder, ihl p hl, ihr q hr]
    | _ => exact atom (by rw [holdsUnder]; all_goals simp) b h
  | _ => exact fun b h => atom (by rw [holdsUnder]; all_goals simp) b h

end KaspaScript
