import Mathlib.Data.List.Basic

namespace KaspaScript.Library

variable {ι σ : Type}

/-- Runs instructions one after the other; the first failure stops the run. -/
def run (step : ι → σ → Option σ) : List ι → σ → Option σ
  | [], s => some s
  | i :: code, s => (step i s).bind (run step code)

section

variable {step : ι → σ → Option σ}

@[simp] theorem run_nil (s : σ) : run step [] s = some s := rfl

theorem run_cons (i : ι) (code : List ι) (s : σ) :
    run step (i :: code) s = (step i s).bind (run step code) := rfl

@[simp] theorem run_singleton (i : ι) (s : σ) : run step [i] s = step i s := by
  rw [run_cons]
  cases step i s <;> rfl

theorem run_append (code rest : List ι) (s : σ) :
    run step (code ++ rest) s = (run step code s).bind (run step rest) := by
  induction code generalizing s with
  | nil => rfl
  | cons i code ih =>
    simp only [List.cons_append, run_cons, Option.bind_assoc]
    congr 1
    funext s'
    exact ih s'

/-- A run ends where its parts end. -/
theorem run_append_of_some {code rest : List ι} {s s' : σ} (h : run step code s = some s') :
    run step (code ++ rest) s = run step rest s' := by
  rw [run_append, h, Option.bind_some]

theorem run_append_of_none {code rest : List ι} {s : σ} (h : run step code s = none) :
    run step (code ++ rest) s = none := by
  rw [run_append, h, Option.bind_none]

/-- What every step keeps holds after a run. -/
theorem run_invariant {P : σ → Prop} (hstep : ∀ i s s', P s → step i s = some s' → P s') :
    ∀ {code s s'}, P s → run step code s = some s' → P s' := by
  intro code
  induction code with
  | nil =>
    intro s s' hs h
    rw [run_nil, Option.some.injEq] at h
    exact h ▸ hs
  | cons i code ih =>
    intro s s' hs h
    obtain ⟨mid, hmid, hrest⟩ := Option.bind_eq_some_iff.mp h
    exact ih (hstep i s mid hs hmid) hrest

end

/-- Instructions with conditionals around them. -/
inductive Branching (ι : Type) where
  | plain (i : ι)
  | cond | otherwise | close
  deriving DecidableEq, Repr

/-- Where an open conditional stands. A conditional met while skipping is skipped as a whole. -/
inductive Cond where
  | taken | notTaken | skipped
  deriving DecidableEq, Repr

def Cond.flip : Cond → Cond
  | .taken => .notTaken
  | .notTaken => .taken
  | .skipped => .skipped

def isExecuting (conds : List Cond) : Bool := conds.all (· == .taken)

section

variable (step : ι → σ → Option σ) (test : σ → Option (Bool × σ))

/-- One instruction of a machine with conditionals; `test` takes the condition off the state. -/
def branchStep : Branching ι → σ × List Cond → Option (σ × List Cond)
  | .plain i, (s, conds) =>
      if isExecuting conds then (step i s).map fun s' => (s', conds) else some (s, conds)
  | .cond, (s, conds) =>
      if isExecuting conds then
        (test s).map fun (b, s') => (s', (if b then Cond.taken else Cond.notTaken) :: conds)
      else some (s, .skipped :: conds)
  | .otherwise, (s, c :: conds) => some (s, c.flip :: conds)
  | .otherwise, (_, []) => none
  | .close, (s, _ :: conds) => some (s, conds)
  | .close, (_, []) => none

/-- A whole program; every conditional has to be closed. -/
def runBranching (code : List (Branching ι)) (s : σ) : Option σ :=
  (run (branchStep step test) code (s, [])).bind fun (s', conds) =>
    if conds = [] then some s' else none

variable {step test}

theorem run_plain {conds : List Cond} (h : isExecuting conds = true) (code : List ι) (s : σ) :
    run (branchStep step test) (code.map .plain) (s, conds) =
      (run step code s).map fun s' => (s', conds) := by
  induction code generalizing s with
  | nil => rfl
  | cons i code ih =>
    simp only [List.map_cons, run_cons, branchStep, h, if_true]
    cases step i s with
    | none => rfl
    | some s' => exact ih s'

theorem run_skipped {conds : List Cond} (h : isExecuting conds = false) (code : List ι) (s : σ) :
    run (branchStep step test) (code.map .plain) (s, conds) = some (s, conds) := by
  induction code with
  | nil => rfl
  | cons i code ih =>
    simp only [List.map_cons, run_cons, branchStep, h, Bool.false_eq_true, if_false]
    exact ih

/-- A program without conditionals. -/
theorem runBranching_plain (code : List ι) (s : σ) :
    runBranching step test (code.map .plain) s = run step code s := by
  rw [runBranching, run_plain rfl]
  cases run step code s <;> rfl

/-- A two-way conditional runs the side that the test chooses. -/
theorem runBranching_cond (yes no : List ι) (s : σ) :
    runBranching step test
        (.cond :: (yes.map .plain ++ .otherwise :: (no.map .plain ++ [.close]))) s =
      (test s).bind fun (b, s') => run step (if b then yes else no) s' := by
  rw [runBranching, run_cons]
  simp only [branchStep, isExecuting, List.all_nil, if_true]
  cases test s with
  | none => rfl
  | some r =>
    obtain ⟨b, s'⟩ := r
    cases b with
    | true =>
      simp only [Option.map_some, Option.bind_some, if_true]
      rw [run_append, run_plain rfl]
      cases run step yes s' with
      | none => rfl
      | some s'' =>
        simp only [Option.map_some, Option.bind_some, run_cons, branchStep, Cond.flip]
        rw [run_append_of_some (run_skipped rfl no s'')]
        rfl
    | false =>
      simp only [Option.map_some, Option.bind_some, Bool.false_eq_true, if_false]
      rw [run_append_of_some (run_skipped rfl yes s')]
      simp only [run_cons, branchStep, Cond.flip, Option.bind_some]
      rw [run_append, run_plain rfl]
      cases run step no s' <;> rfl

end

end KaspaScript.Library
