import KaspaScript.Library.Heaviest
import KaspaScript.Sdk.Funding

namespace KaspaScript.Testnet

open Library (Descending bind_eq_ok length_of_weightSum_lt pure_eq_ok weightSum weightSum_append
  weightSum_cons weightSum_perm)

def FundingUtxo.amount (utxo : FundingUtxo) : Nat := utxo.entry.amount

/-- The amounts of a funding list added up without a bound. -/
def fundingSum (funding : List FundingUtxo) : Nat := weightSum FundingUtxo.amount funding

@[simp] theorem fundingSum_nil : fundingSum [] = 0 := rfl

@[simp] theorem fundingSum_cons (utxo : FundingUtxo) (funding : List FundingUtxo) :
    fundingSum (utxo :: funding) = utxo.amount + fundingSum funding :=
  weightSum_cons utxo funding

theorem fundingSum_append (funding rest : List FundingUtxo) :
    fundingSum (funding ++ rest) = fundingSum funding + fundingSum rest :=
  weightSum_append funding rest

/-- The amounts added up as the source adds them. -/
def saturatingSum (funding : List FundingUtxo) : Nat :=
  funding.foldl (fun total utxo => saturatingAdd total utxo.entry.amount) 0

theorem saturatingSum_eq (funding : List FundingUtxo) :
    saturatingSum funding = min (fundingSum funding) u64Max := by
  have hfold : ∀ total, funding.foldl (fun total utxo => saturatingAdd total utxo.entry.amount)
      (min total u64Max) = min (total + fundingSum funding) u64Max := by
    induction funding with
    | nil => simp
    | cons utxo funding ih =>
      intro total
      have hstep : saturatingAdd (min total u64Max) utxo.entry.amount =
          min (total + utxo.amount) u64Max := by
        unfold saturatingAdd FundingUtxo.amount
        omega
      rw [List.foldl_cons, hstep, ih, fundingSum_cons, Nat.add_assoc]
  have hzero := hfold 0
  rwa [Nat.zero_min, Nat.zero_add] at hzero

section

variable {funding selected : List FundingUtxo} {minimum total : Nat}

/-- The loop stops at the first prefix that reaches the minimum; below it the running total has
not met its bound. -/
theorem takeFunding_eq_ok (hminimum : minimum ≤ u64Max)
    (h : takeFunding minimum funding total = .ok selected) (htotal : total < minimum) :
    selected <+: funding ∧ minimum ≤ total + fundingSum selected ∧
      total + fundingSum selected.dropLast < minimum := by
  induction funding generalizing total selected with
  | nil => cases h
  | cons utxo funding ih =>
    rw [takeFunding] at h
    have hsum : minimum ≤ saturatingAdd total utxo.entry.amount ↔
        minimum ≤ total + utxo.amount := by
      unfold saturatingAdd FundingUtxo.amount
      omega
    split_ifs at h with henough
    · obtain rfl := Except.ok.inj h
      have hreached := hsum.mp henough
      refine ⟨⟨funding, rfl⟩, ?_, ?_⟩
      · rw [fundingSum_cons]
        exact hreached
      · exact htotal
    · obtain ⟨others, hothers, h⟩ := bind_eq_ok.mp h
      obtain rfl := pure_eq_ok.mp h
      have hbelow : total + utxo.amount < minimum := Nat.lt_of_not_le fun hle => henough (hsum.mpr hle)
      have hexact : saturatingAdd total utxo.entry.amount = total + utxo.amount := by
        unfold saturatingAdd FundingUtxo.amount at *
        omega
      rw [hexact] at hothers
      obtain ⟨hfront, hreaches, hless⟩ := ih hothers hbelow
      have hsome : others ≠ [] := by
        intro hnil
        rw [hnil] at hreaches
        simp at hreaches
        omega
      refine ⟨List.cons_prefix_cons.mpr ⟨rfl, hfront⟩, ?_, ?_⟩
      · rw [fundingSum_cons]
        omega
      · rw [List.dropLast_cons_of_ne_nil hsome, fundingSum_cons]
        omega

theorem takeFunding_eq_error {error : TestnetError}
    (h : takeFunding minimum funding total = .error error) (hminimum : minimum ≤ u64Max)
    (htotal : total < minimum) :
    total + fundingSum funding < minimum ∧
      error = .insufficientFunds minimum (total + fundingSum funding) := by
  induction funding generalizing total with
  | nil =>
    obtain rfl := Except.error.inj h
    exact ⟨htotal, rfl⟩
  | cons utxo funding ih =>
    rw [takeFunding] at h
    split_ifs at h with henough
    have hbelow : total + utxo.amount < minimum := by
      unfold saturatingAdd at henough
      unfold FundingUtxo.amount
      omega
    have hexact : saturatingAdd total utxo.entry.amount = total + utxo.amount := by
      unfold saturatingAdd FundingUtxo.amount at *
      omega
    rw [hexact] at h
    cases hothers : takeFunding minimum funding (total + utxo.amount) with
    | ok others =>
      rw [hothers] at h
      cases h
    | error error' =>
      rw [hothers] at h
      obtain rfl := Except.error.inj h
      have hrest := ih hothers hbelow
      rw [fundingSum_cons, ← Nat.add_assoc]
      exact hrest

end

/-- The order in which the source looks at the funding. -/
def byAmount (funding : List FundingUtxo) : List FundingUtxo :=
  funding.insertionSort fun a b => b.entry.amount ≤ a.entry.amount

theorem descending_byAmount (funding : List FundingUtxo) :
    Descending FundingUtxo.amount (byAmount funding) := by
  have htotal : Std.Total fun a b : FundingUtxo => b.entry.amount ≤ a.entry.amount :=
    ⟨fun a b => Nat.le_total b.entry.amount a.entry.amount⟩
  have htrans : IsTrans FundingUtxo fun a b => b.entry.amount ≤ a.entry.amount :=
    ⟨fun _ _ _ hab hbc => hbc.trans hab⟩
  exact List.pairwise_insertionSort _ funding

/-- Selection succeeds exactly when the funding suffices, and then takes as few as possible. -/
theorem selectFunding_fewest (funding : List FundingUtxo) (minimum : Nat) (hpositive : 0 < minimum)
    (hminimum : minimum ≤ u64Max) :
    ((∃ selected, selectFunding funding minimum = .ok selected) ↔
        minimum ≤ saturatingSum funding) ∧
      (∀ selected, selectFunding funding minimum = .ok selected →
        selected.Subperm funding ∧ minimum ≤ fundingSum selected ∧
          (∀ other : List FundingUtxo, other.Subperm funding → minimum ≤ fundingSum other →
            selected.length ≤ other.length) ∧
          fundingSum selected.dropLast < minimum) ∧
      ∀ error, selectFunding funding minimum = .error error →
        error = .insufficientFunds minimum (saturatingSum funding) := by
  have hperm : (byAmount funding).Perm funding := List.perm_insertionSort _ funding
  have hsame : fundingSum (byAmount funding) = fundingSum funding := weightSum_perm hperm
  have hok : ∀ selected, selectFunding funding minimum = .ok selected →
      selected <+: byAmount funding ∧ minimum ≤ fundingSum selected ∧
        fundingSum selected.dropLast < minimum := by
    intro selected h
    have hloop := takeFunding_eq_ok hminimum h hpositive
    rw [Nat.zero_add, Nat.zero_add] at hloop
    exact hloop
  have herror : ∀ error, selectFunding funding minimum = .error error →
      fundingSum funding < minimum ∧
        error = .insufficientFunds minimum (fundingSum funding) := by
    intro error h
    have hloop := takeFunding_eq_error h hminimum hpositive
    rw [Nat.zero_add] at hloop
    rw [← hsame]
    exact hloop
  rw [saturatingSum_eq]
  refine ⟨?_, ?_, ?_⟩
  · constructor
    · intro hselect
      obtain ⟨selected, h⟩ := hselect
      obtain ⟨hfront, hreaches, _⟩ := hok selected h
      obtain ⟨rest, hrest⟩ := hfront
      rw [← hsame, ← hrest, fundingSum_append]
      omega
    · intro henough
      cases h : selectFunding funding minimum with
      | ok selected => exact ⟨selected, rfl⟩
      | error error =>
        have hless := (herror error h).1
        omega
  · intro selected h
    obtain ⟨hfront, hreaches, hless⟩ := hok selected h
    refine ⟨hfront.sublist.subperm.trans hperm.subperm, hreaches, ?_, hless⟩
    intro other hother henough
    have htake : (byAmount funding).take (selected.length - 1) = selected.dropLast := by
      obtain ⟨rest, hrest⟩ := hfront
      rw [← hrest, List.take_append_of_le_length (Nat.sub_le _ _), List.dropLast_eq_take]
    have hheavier : fundingSum ((byAmount funding).take (selected.length - 1)) <
        fundingSum other := by
      rw [htake]
      exact hless.trans_le henough
    have hlonger := length_of_weightSum_lt (fun _ => Nat.zero_le _) (descending_byAmount funding)
      (hother.trans hperm.symm.subperm) hheavier
    omega
  · intro error h
    obtain ⟨hless, heq⟩ := herror error h
    rw [heq, Nat.min_eq_left (by omega)]

/-- An output of some amount whose other data play no part. -/
def plainUtxo (amount : Nat) : FundingUtxo :=
  ⟨⟨[], 0⟩, ⟨amount, ⟨0, []⟩, 0, false⟩, ⟨none, ⟨[], 0⟩, amount, ⟨0, []⟩, 0, false⟩⟩

theorem selectFunding_fewest_plain :
    selectFunding [plainUtxo 3, plainUtxo 5, plainUtxo 4] 6 = .ok [plainUtxo 5, plainUtxo 4] ∧
      [plainUtxo 5, plainUtxo 4].length ≤ [plainUtxo 3, plainUtxo 4].length := by
  have hselect : selectFunding [plainUtxo 3, plainUtxo 5, plainUtxo 4] 6 =
      .ok [plainUtxo 5, plainUtxo 4] := rfl
  obtain ⟨_, hfewest, _⟩ := selectFunding_fewest [plainUtxo 3, plainUtxo 5, plainUtxo 4] 6
    (by decide) (by decide)
  obtain ⟨_, _, hshortest, _⟩ := hfewest _ hselect
  refine ⟨hselect, hshortest _ ?_ (by decide)⟩
  have hpart : [plainUtxo 3, plainUtxo 4].Sublist [plainUtxo 3, plainUtxo 5, plainUtxo 4] :=
    .cons_cons _ (.cons _ (.cons_cons _ .slnil))
  exact hpart.subperm

end KaspaScript.Testnet
