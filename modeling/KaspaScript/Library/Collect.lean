import Mathlib.Data.List.Basic

namespace KaspaScript.Library

/-- A computation that always yields a value and collects reports on the way. -/
structure Collect (ε α : Type) where
  value : α
  errors : List ε

variable {ε α β : Type}

namespace Collect

instance : Monad (Collect ε) where
  pure a := ⟨a, []⟩
  bind x f := ⟨(f x.value).value, x.errors ++ (f x.value).errors⟩

/-- Files one report and goes on. -/
def report (e : ε) : Collect ε Unit := ⟨(), [e]⟩

/-- Nothing was reported. -/
def Clean (x : Collect ε α) : Prop := x.errors = []

@[simp] theorem value_pure (a : α) : (pure a : Collect ε α).value = a := rfl

@[simp] theorem value_bind (x : Collect ε α) (f : α → Collect ε β) :
    (x >>= f).value = (f x.value).value := rfl

@[simp] theorem clean_pure (a : α) : (pure a : Collect ε α).Clean := rfl

@[simp] theorem not_clean_report (e : ε) : ¬ (report e).Clean := by simp [Clean, report]

@[simp] theorem clean_bind (x : Collect ε α) (f : α → Collect ε β) :
    (x >>= f).Clean ↔ x.Clean ∧ (f x.value).Clean := List.append_eq_nil_iff

@[simp] theorem clean_ite (c : Prop) [Decidable c] (x y : Collect ε α) :
    (if c then x else y).Clean ↔ (c → x.Clean) ∧ (¬ c → y.Clean) := by
  split_ifs with h <;> simp [h]

@[simp] theorem value_ite (c : Prop) [Decidable c] (x y : Collect ε α) :
    (if c then x else y).value = if c then x.value else y.value := by
  split_ifs <;> rfl

/-- All that was reported is of this kind. -/
def Reports (P : ε → Prop) (x : Collect ε α) : Prop := ∀ e ∈ x.errors, P e

variable {P : ε → Prop}

@[simp] theorem reports_pure (a : α) : Reports P (pure a : Collect ε α) := by
  intro e he
  cases he

@[simp] theorem reports_report {e : ε} : Reports P (report e) ↔ P e := by simp [Reports, report]

@[simp] theorem reports_bind {x : Collect ε α} {f : α → Collect ε β} :
    Reports P (x >>= f) ↔ Reports P x ∧ Reports P (f x.value) := List.forall_mem_append

@[simp] theorem reports_ite (c : Prop) [Decidable c] (x y : Collect ε α) :
    Reports P (if c then x else y) ↔ (c → Reports P x) ∧ (¬ c → Reports P y) := by
  split_ifs with h <;> simp [h]

end Collect

/-- No name repeats, and none was seen before. -/
def Fresh (seen names : List α) : Prop := names.Nodup ∧ ∀ name ∈ names, name ∉ seen

@[simp] theorem fresh_nil {seen : List α} : Fresh seen [] := by simp [Fresh]

/-- What a loop that remembers the names it has seen checks at each of them. -/
theorem fresh_cons {seen names : List α} {name : α} :
    Fresh seen (name :: names) ↔ name ∉ seen ∧ Fresh (name :: seen) names := by
  unfold Fresh
  rw [List.nodup_cons, List.forall_mem_cons]
  simp only [List.mem_cons, not_or]
  constructor
  · intro ⟨⟨hnotin, hnodup⟩, hfresh, hrest⟩
    refine ⟨hfresh, hnodup, ?_⟩
    intro other hother
    refine ⟨?_, hrest other hother⟩
    intro hsame
    exact hnotin (hsame ▸ hother)
  · intro ⟨hfresh, hnodup, hrest⟩
    have hnotin : name ∉ names := by
      intro hmem
      exact (hrest name hmem).1 rfl
    exact ⟨⟨hnotin, hnodup⟩, hfresh, fun other hother => (hrest other hother).2⟩

theorem fresh_append {seen xs ys : List α} :
    Fresh seen (xs ++ ys) ↔ Fresh seen xs ∧ Fresh (xs.reverse ++ seen) ys := by
  induction xs generalizing seen with
  | nil => simp
  | cons x xs ih =>
    rw [List.cons_append, fresh_cons, fresh_cons, ih, List.reverse_cons, List.append_assoc,
      and_assoc]
    rfl

/-- Where no name repeats, the search by name finds what carries it. -/
theorem find?_of_fresh {β : Type} [BEq α] [LawfulBEq α] {name : β → α} {xs : List β} {x : β}
    (h : Fresh [] (xs.map name)) (hx : x ∈ xs) : xs.find? (fun y => name y == name x) = some x := by
  have hnodup := h.1
  induction xs with
  | nil => cases hx
  | cons first rest ih =>
    rw [List.map_cons, List.nodup_cons] at hnodup
    rcases List.mem_cons.mp hx with rfl | hx
    · simp
    · have hne : name first ≠ name x := by
        intro hsame
        apply hnodup.1
        rw [hsame]
        exact List.mem_map_of_mem hx
      have hfalse : (name first == name x) = false := by simpa using hne
      rw [List.find?_cons, hfalse]
      exact ih ⟨hnodup.2, by simp⟩ hx hnodup.2

/-- Of distinct keys the entry that is found is the one that is there. -/
theorem lookup_of_nodup {κ υ : Type} [BEq κ] [LawfulBEq κ] {entries : List (κ × υ)} {key : κ}
    {value : υ} (hkeys : (entries.map Prod.fst).Nodup) (h : (key, value) ∈ entries) :
    entries.lookup key = some value := by
  obtain ⟨before, after, rfl⟩ := List.append_of_mem h
  rw [List.lookup_eq_some_iff]
  refine ⟨before, after, rfl, ?_⟩
  intro entry hentry
  rw [List.map_append, List.map_cons, List.nodup_append] at hkeys
  have hne := hkeys.2.2 entry.1 (List.mem_map_of_mem hentry) key List.mem_cons_self
  simpa using hne.symm

theorem nodup_eraseDups [BEq α] [LawfulBEq α] :
    (xs : List α) → xs.eraseDups.Nodup
  | [] => by simp
  | x :: rest => by
    rw [List.eraseDups_cons, List.nodup_cons]
    constructor
    · intro hmem
      simpa using List.mem_eraseDups.mp hmem
    · exact nodup_eraseDups _
termination_by xs => xs.length
decreasing_by exact Nat.lt_succ_of_le (List.length_filter_le _ _)

end KaspaScript.Library
