import Mathlib.Data.List.Infix

namespace KaspaScript.Library

variable {τ ε α β : Type}

/-- A recursive-descent parser's run at cursor `c`: either it takes a segment of the tokens from
there on and `good` holds of the segment, the new cursor and the value, or it fails as `fail`
allows. -/
def Takes (tokens : List τ) (fail : ε → Prop) (m : StateT Nat (Except ε) α) (c : Nat)
    (good : List τ → Nat → α → Prop) : Prop :=
  match m c with
  | .ok (a, c') => ∃ segment, tokens.drop c = segment ++ tokens.drop c' ∧
      c' = c + segment.length ∧ good segment c' a
  | .error e => fail e

section

variable {tokens : List τ} {fail : ε → Prop} {m : StateT Nat (Except ε) α} {c c' : Nat}
  {good good' : List τ → Nat → α → Prop}

theorem Takes.of_ok (h : Takes tokens fail m c good) {a : α} (hok : m c = .ok (a, c')) :
    ∃ segment, tokens.drop c = segment ++ tokens.drop c' ∧ c' = c + segment.length ∧
      good segment c' a := by
  unfold Takes at h
  rwa [hok] at h

theorem Takes.of_error (h : Takes tokens fail m c good) {e : ε} (herror : m c = .error e) :
    fail e := by
  unfold Takes at h
  rwa [herror] at h

theorem takes_of_ok {a : α} {segment : List τ} (hok : m c = .ok (a, c'))
    (hsegment : tokens.drop c = segment ++ tokens.drop c') (hc : c' = c + segment.length)
    (hgood : good segment c' a) : Takes tokens fail m c good := by
  unfold Takes
  rw [hok]
  exact ⟨segment, hsegment, hc, hgood⟩

theorem takes_of_error {e : ε} (herror : m c = .error e) (hfail : fail e) :
    Takes tokens fail m c good := by
  unfold Takes
  rwa [herror]

/-- A run that leaves the cursor where it is. -/
theorem takes_nothing {a : α} (hok : m c = .ok (a, c)) (hgood : good [] c a) :
    Takes tokens fail m c good :=
  takes_of_ok hok rfl rfl hgood

theorem takes_pure {a : α} (hgood : good [] c a) : Takes tokens fail (pure a) c good :=
  takes_nothing rfl hgood

theorem takes_token {a : α} {token : τ} (hok : m c = .ok (a, c + 1))
    (htoken : tokens[c]? = some token) (hgood : good [token] (c + 1) a) :
    Takes tokens fail m c good := by
  obtain ⟨hlt, hget⟩ := List.getElem?_eq_some_iff.mp htoken
  refine takes_of_ok hok ?_ rfl hgood
  rw [List.drop_eq_getElem_cons hlt, hget]
  rfl

theorem Takes.mono (h : Takes tokens fail m c good)
    (himp : ∀ segment c' a, good segment c' a → good' segment c' a) :
    Takes tokens fail m c good' := by
  cases hrun : m c with
  | ok r =>
    obtain ⟨a, c'⟩ := r
    obtain ⟨segment, hsegment, hc, hgood⟩ := h.of_ok hrun
    exact takes_of_ok hrun hsegment hc (himp segment c' a hgood)
  | error e => exact takes_of_error hrun (h.of_error hrun)

theorem Takes.imp_fail (h : Takes tokens fail m c good) {fail' : ε → Prop}
    (himp : ∀ e, fail e → fail' e) : Takes tokens fail' m c good := by
  cases hrun : m c with
  | ok r =>
    obtain ⟨a, c'⟩ := r
    obtain ⟨segment, hsegment, hc, hgood⟩ := h.of_ok hrun
    exact takes_of_ok hrun hsegment hc hgood
  | error e => exact takes_of_error hrun (himp e (h.of_error hrun))

/-- One after the other; the second starts behind the first's segment. -/
theorem Takes.bind {f : α → StateT Nat (Except ε) β} {good' : List τ → Nat → β → Prop}
    (h : Takes tokens fail m c good)
    (hf : ∀ segment c' a, tokens.drop c = segment ++ tokens.drop c' → c' = c + segment.length →
      good segment c' a →
        Takes tokens fail (f a) c' fun rest c'' b => good' (segment ++ rest) c'' b) :
    Takes tokens fail (m >>= f) c good' := by
  cases hrun : m c with
  | ok r =>
    obtain ⟨a, c'⟩ := r
    obtain ⟨segment, hsegment, hc, hgood⟩ := h.of_ok hrun
    have hbind : (m >>= f) c = f a c' := by
      simp only [Bind.bind, StateT.bind, Except.bind, hrun]
    have hrest := hf segment c' a hsegment hc hgood
    cases hrun' : f a c' with
    | ok r =>
      obtain ⟨b, c''⟩ := r
      obtain ⟨rest, hrest', hc', hgood'⟩ := hrest.of_ok hrun'
      refine takes_of_ok (hbind.trans hrun') ?_ ?_ hgood'
      · rw [hsegment, hrest', List.append_assoc]
      · rw [hc', hc, List.length_append, Nat.add_assoc]
    | error e => exact takes_of_error (hbind.trans hrun') (hrest.of_error hrun')
  | error e =>
    have hbind : (m >>= f) c = .error e := by
      simp only [Bind.bind, StateT.bind, Except.bind, hrun]
    exact takes_of_error hbind (h.of_error hrun)

/-- A run that skips the token at the cursor and goes on as another one. -/
theorem Takes.skip {m' : StateT Nat (Except ε) α} {token : τ} (hrun : m c = m' (c + 1))
    (htoken : tokens[c]? = some token)
    (h : Takes tokens fail m' (c + 1) fun rest c' a => good (token :: rest) c' a) :
    Takes tokens fail m c good := by
  have hfirst : Takes tokens fail (fun c => Except.ok ((), c + 1)) c fun segment c' _ =>
      segment = [token] ∧ c' = c + 1 := takes_token rfl htoken ⟨rfl, rfl⟩
  have hboth : Takes tokens fail ((fun c => Except.ok ((), c + 1)) >>= fun _ => m') c good := by
    apply hfirst.bind
    intro segment c' _ _ _ hsegment
    obtain ⟨rfl, rfl⟩ := hsegment
    exact h
  unfold Takes at *
  rw [hrun]
  exact hboth

/-- The cursor goes as far as the segment is long, and stays within the tokens. -/
theorem le_of_drop_eq {segment : List τ} (hsegment : tokens.drop c = segment ++ tokens.drop c')
    (hc : c' = c + segment.length) (hle : c ≤ tokens.length) : c ≤ c' ∧ c' ≤ tokens.length := by
  have hlength := congrArg List.length hsegment
  rw [List.length_append, List.length_drop, List.length_drop] at hlength
  omega

/-- A segment stands somewhere among the tokens. -/
theorem isInfix_of_drop_eq {segment rest : List τ} (h : tokens.drop c = segment ++ rest) :
    segment <:+: tokens :=
  ⟨tokens.take c, rest, by rw [List.append_assoc, ← h, List.take_append_drop]⟩

end

end KaspaScript.Library
