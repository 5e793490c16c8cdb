import Mathlib.Data.List.Basic

namespace KaspaScript.Library

/-- A computation that appends to a buffer and may fail. -/
abbrev Buffered (ε α : Type) := ExceptT ε (StateM (List α))

namespace Buffered

variable {ε α : Type}

def push (a : α) : Buffered ε α Unit := modify fun out => out ++ [a]

def extend (items : List α) : Buffered ε α Unit := modify fun out => out ++ items

/-- The result, and the buffer that is left of `out`. -/
def runOn (w : Buffered ε α Unit) (out : List α) : Except ε Unit × List α :=
  Id.run (StateT.run (ExceptT.run w) out)

/-- The computation appends the items, or fails with the buffer as it was. -/
def Appends (w : Buffered ε α Unit) (result : Except ε (List α)) : Prop :=
  ∀ out, w.runOn out =
    match result with
    | .ok items => (.ok (), out ++ items)
    | .error e => (.error e, out)

theorem appends_push (a : α) : Appends (push a : Buffered ε α Unit) (.ok [a]) := fun _ => rfl

theorem appends_extend (items : List α) :
    Appends (extend items : Buffered ε α Unit) (.ok items) := fun _ => rfl

theorem appends_throw (e : ε) : Appends (throw e : Buffered ε α Unit) (.error e) := fun _ => rfl

theorem appends_pure : Appends (pure () : Buffered ε α Unit) (.ok []) := by
  intro out
  simp only [List.append_nil]
  rfl

theorem runOn_bind (w w' : Buffered ε α Unit) (out : List α) :
    runOn (do w; w') out =
      match w.runOn out with
      | (.ok (), out) => w'.runOn out
      | (.error e, out) => (.error e, out) := by
  have hbind : runOn (do w; w') out =
      Id.run (StateT.run (ExceptT.bindCont (fun _ => w') (w.runOn out).1) (w.runOn out).2) := rfl
  rw [hbind]
  obtain ⟨result, out'⟩ := w.runOn out
  cases result <;> rfl

/-- What succeeds may stand before anything. -/
theorem Appends.bind {w w' : Buffered ε α Unit} {items items' : List α}
    (h : Appends w (.ok items)) (h' : Appends w' (.ok items')) :
    Appends (do w; w') (.ok (items ++ items')) := by
  intro out
  rw [runOn_bind, h out]
  simp only [h' (out ++ items), List.append_assoc]

end Buffered

end KaspaScript.Library
