import Mathlib.Data.Int.Order.Basic
import Mathlib.Data.List.DropRight
import Mathlib.Tactic.Linarith
import Mathlib.Tactic.NormNum

namespace KaspaScript.Library.ScriptNum

/-- The little-endian bytes of a magnitude. The high bit of the last byte is the sign, so a
magnitude whose last byte would need that bit takes one byte more. -/
def magnitude (sign : Nat) : Nat → Nat → List UInt8
  | 0, n => [UInt8.ofNat (n + sign)]
  | fuel + 1, n =>
      if n < 128 then [UInt8.ofNat (n + sign)]
      else UInt8.ofNat (n % 256) :: magnitude sign fuel (n / 256)

/-- The number as sign and magnitude; zero is empty. -/
def encode (n : Int) : List UInt8 :=
  if n = 0 then [] else magnitude (if n < 0 then 128 else 0) n.natAbs n.natAbs

/-- Whether the sign bit is set, and the magnitude. -/
def decodeMagnitude : List UInt8 → Bool × Nat
  | [] => (false, 0)
  | [last] => (decide (128 ≤ last.toNat), last.toNat % 128)
  | byte :: next :: rest =>
      let (negative, high) := decodeMagnitude (next :: rest)
      (negative, byte.toNat + 256 * high)

def decode (bytes : List UInt8) : Int :=
  let (negative, n) := decodeMagnitude bytes
  if negative then -(n : Int) else n

/-- The last byte carries more than a sign, or needs to be there for the sign. -/
def isMinimal : List UInt8 → Bool
  | [] => true
  | [last] => last.toNat % 128 ≠ 0
  | [byte, last] => last.toNat % 128 ≠ 0 || 128 ≤ byte.toNat
  | _ :: next :: last :: rest => isMinimal (next :: last :: rest)

/-- The bytes read as an unsigned little-endian number. -/
def unsigned : List UInt8 → Nat
  | [] => 0
  | byte :: rest => byte.toNat + 256 * unsigned rest

theorem unsigned_lt (bytes : List UInt8) : unsigned bytes < 256 ^ bytes.length := by
  induction bytes with
  | nil => simp [unsigned]
  | cons byte rest ih =>
    have hbyte : byte.toNat < 256 := byte.toNat_lt
    rw [unsigned, List.length_cons, pow_succ]
    omega

section

variable {sign : Nat}

theorem magnitude_small {n : Nat} (fuel : Nat) (hn : n < 128) :
    magnitude sign fuel n = [UInt8.ofNat (n + sign)] := by
  cases fuel <;> simp [magnitude, hn]

theorem magnitude_large (sign : Nat) {n fuel : Nat} (hfuel : n ≤ fuel) (hn : 128 ≤ n) :
    ∃ fuel', n / 256 ≤ fuel' ∧
      magnitude sign fuel n = UInt8.ofNat (n % 256) :: magnitude sign fuel' (n / 256) := by
  cases fuel with
  | zero => omega
  | succ fuel =>
    refine ⟨fuel, by omega, ?_⟩
    rw [magnitude, if_neg (by omega)]

theorem magnitude_ne_nil (sign fuel n : Nat) : magnitude sign fuel n ≠ [] := by
  cases fuel with
  | zero => simp [magnitude]
  | succ fuel =>
    rw [magnitude]
    split_ifs <;> simp

theorem toNat_ofNat {n : Nat} (hn : n < 256) : (UInt8.ofNat n).toNat = n :=
  UInt8.toNat_ofNat_of_lt' (by simpa using hn)

theorem decodeMagnitude_cons {byte : UInt8} {rest : List UInt8} (hrest : rest ≠ []) :
    decodeMagnitude (byte :: rest) =
      ((decodeMagnitude rest).1, byte.toNat + 256 * (decodeMagnitude rest).2) := by
  cases rest with
  | nil => exact absurd rfl hrest
  | cons next rest => rfl

theorem decodeMagnitude_magnitude (hsign : sign = 0 ∨ sign = 128) (fuel : Nat) :
    ∀ n, n ≤ fuel → decodeMagnitude (magnitude sign fuel n) = (decide (sign = 128), n) := by
  intro n
  induction n using Nat.strong_induction_on generalizing fuel with
  | _ n ih =>
    intro hfuel
    by_cases hn : n < 128
    · rw [magnitude_small fuel hn]
      have hbyte : (UInt8.ofNat (n + sign)).toNat = n + sign := toNat_ofNat (by omega)
      simp only [decodeMagnitude, hbyte]
      rcases hsign with rfl | rfl
      · simp only [Nat.add_zero, Nat.mod_eq_of_lt hn]
        simpa using hn
      · simp only [Nat.add_mod_right, Nat.mod_eq_of_lt hn]
        simp
    · obtain ⟨fuel', hfuel', heq⟩ := magnitude_large sign hfuel (by omega)
      rw [heq, decodeMagnitude_cons (magnitude_ne_nil sign fuel' _),
        ih (n / 256) (by omega) fuel' hfuel', toNat_ofNat (by omega)]
      simp only [Prod.mk.injEq, true_and]
      omega

/-- Reading a number's encoding gives the number back. -/
@[simp] theorem decode_encode (n : Int) : decode (encode n) = n := by
  unfold encode
  split_ifs with hzero hneg
  · subst hzero
    rfl
  · simp only [decode, decodeMagnitude_magnitude (Or.inr rfl) _ _ (Nat.le_refl _)]
    simp only [decide_true, if_true]
    omega
  · simp only [decode, decodeMagnitude_magnitude (Or.inl rfl) _ _ (Nat.le_refl _)]
    simp only [OfNat.zero_ne_ofNat, decide_false, Bool.false_eq_true, if_false]
    omega

theorem encode_injective : Function.Injective encode := by
  intro a b hab
  rw [← decode_encode a, hab, decode_encode]

theorem isMinimal_magnitude (hsign : sign = 0 ∨ sign = 128) (fuel : Nat) :
    ∀ n, 0 < n → n ≤ fuel → isMinimal (magnitude sign fuel n) = true := by
  intro n
  induction n using Nat.strong_induction_on generalizing fuel with
  | _ n ih =>
    intro hpos hfuel
    by_cases hn : n < 128
    · rw [magnitude_small fuel hn]
      have hbyte : (UInt8.ofNat (n + sign)).toNat = n + sign := toNat_ofNat (by omega)
      simp only [isMinimal, hbyte, ne_eq, decide_not, Bool.not_eq_true', decide_eq_false_iff_not]
      omega
    · obtain ⟨fuel', hfuel', heq⟩ := magnitude_large sign hfuel (by omega)
      rw [heq]
      by_cases hsmall : n / 256 < 128
      · -- the last byte stands behind one that is at least 128, or is not zero
        rw [magnitude_small fuel' hsmall]
        have hbyte : (UInt8.ofNat (n / 256 + sign)).toNat = n / 256 + sign :=
          toNat_ofNat (by omega)
        have hlow : (UInt8.ofNat (n % 256)).toNat = n % 256 := toNat_ofNat (by omega)
        simp only [isMinimal, hbyte, hlow, Bool.or_eq_true, decide_eq_true_eq]
        omega
      · obtain ⟨fuel'', _, heq'⟩ := magnitude_large sign hfuel' (by omega)
        have hrest := ih (n / 256) (by omega) fuel' (by omega) hfuel'
        rw [heq'] at hrest ⊢
        obtain ⟨last, rest, hlast⟩ := List.exists_cons_of_ne_nil (magnitude_ne_nil sign fuel'' _)
        rw [hlast] at hrest ⊢
        exact hrest

@[simp] theorem isMinimal_encode (n : Int) : isMinimal (encode n) = true := by
  unfold encode
  split_ifs with hzero hneg
  · rfl
  · exact isMinimal_magnitude (Or.inr rfl) _ _ (by omega) (Nat.le_refl _)
  · exact isMinimal_magnitude (Or.inl rfl) _ _ (by omega) (Nat.le_refl _)

theorem length_magnitude (fuel k : Nat) :
    ∀ n, n < 128 * 256 ^ k → n ≤ fuel → (magnitude sign fuel n).length ≤ k + 1 := by
  induction k generalizing fuel with
  | zero =>
    intro n hn _
    simp [magnitude_small fuel (by simpa using hn)]
  | succ k ih =>
    intro n hn hfuel
    by_cases hsmall : n < 128
    · simp [magnitude_small fuel hsmall]
    · obtain ⟨fuel', hfuel', heq⟩ := magnitude_large sign hfuel (by omega)
      have hdiv : n / 256 < 128 * 256 ^ k := by
        rw [Nat.div_lt_iff_lt_mul (by norm_num)]
        rw [pow_succ] at hn
        omega
      rw [heq, List.length_cons]
      exact Nat.succ_le_succ (ih fuel' (n / 256) hdiv hfuel')

/-- Numbers of absolute value below `2 ^ 63` take at most eight bytes. -/
theorem length_encode {n : Int} (hn : n.natAbs < 2 ^ 63) : (encode n).length ≤ 8 := by
  unfold encode
  split_ifs
  · simp
  all_goals exact length_magnitude _ 7 _ (by norm_num; omega) (Nat.le_refl _)

theorem unsigned_magnitude (fuel : Nat) :
    ∀ n, n ≤ fuel → unsigned (magnitude 0 fuel n) = n := by
  intro n
  induction n using Nat.strong_induction_on generalizing fuel with
  | _ n ih =>
    intro hfuel
    by_cases hn : n < 128
    · rw [magnitude_small fuel hn]
      simp only [unsigned, Nat.add_zero, toNat_ofNat (show n < 256 by omega)]
      omega
    · obtain ⟨fuel', hfuel', heq⟩ := magnitude_large 0 hfuel (by omega)
      rw [heq, unsigned, ih (n / 256) (by omega) fuel' hfuel', toNat_ofNat (by omega)]
      omega

/-- A number that is not negative reads the same with and without a sign. -/
theorem unsigned_encode (n : Nat) : unsigned (encode n) = n := by
  unfold encode
  split_ifs with hzero hneg
  · simp only [unsigned]
    omega
  · omega
  · simpa using unsigned_magnitude _ _ (Nat.le_refl n)

/-- Numbers below 128 take one byte. -/
theorem encode_small {n : Nat} (hpos : 0 < n) (hn : n < 128) : encode n = [UInt8.ofNat n] := by
  have hne : (n : Int) ≠ 0 := by omega
  have hnonneg : ¬ (n : Int) < 0 := by omega
  rw [encode, if_neg hne, if_neg hnonneg, Int.natAbs_natCast, magnitude_small n hn, Nat.add_zero]

theorem decodeMagnitude_lt (bytes : List UInt8) :
    (decodeMagnitude bytes).2 < 128 * 256 ^ (bytes.length - 1) := by
  induction bytes with
  | nil => simp [decodeMagnitude]
  | cons byte rest ih =>
    cases rest with
    | nil => simpa [decodeMagnitude] using Nat.mod_lt _ (by norm_num)
    | cons next rest =>
      have hbyte : byte.toNat < 256 := byte.toNat_lt
      simp only [List.length_cons, Nat.add_sub_cancel] at ih ⊢
      rw [decodeMagnitude_cons (by simp), pow_succ]
      omega

/-- Minimal bytes use their last one. -/
theorem le_decodeMagnitude (bytes : List UInt8) (h : isMinimal bytes = true)
    (hlen : 2 ≤ bytes.length) : 128 * 256 ^ (bytes.length - 2) ≤ (decodeMagnitude bytes).2 := by
  induction bytes with
  | nil => simp at hlen
  | cons byte rest ih =>
    rw [decodeMagnitude_cons (by intro hnil; simp [hnil] at hlen)]
    match rest with
    | [] => simp at hlen
    | [last] =>
      simp only [isMinimal, ne_eq, decide_not, Bool.or_eq_true, Bool.not_eq_true',
        decide_eq_false_iff_not, decide_eq_true_eq] at h
      simp only [decodeMagnitude, List.length_cons, List.length_nil]
      omega
    | next :: last :: rest =>
      have hrest := ih h (by simp)
      simp only [List.length_cons] at hrest ⊢
      rw [show rest.length + 1 + 1 + 1 - 2 = rest.length + 1 by omega, pow_succ]
      rw [show rest.length + 1 + 1 - 2 = rest.length by omega] at hrest
      omega

theorem decodeMagnitude_pos {bytes : List UInt8} (h : isMinimal bytes = true) (hne : bytes ≠ []) :
    0 < (decodeMagnitude bytes).2 := by
  match bytes with
  | [] => exact absurd rfl hne
  | [last] =>
    simp only [isMinimal, ne_eq, decide_not, Bool.not_eq_true', decide_eq_false_iff_not] at h
    exact Nat.pos_of_ne_zero h
  | byte :: next :: rest =>
    have hle := le_decodeMagnitude (byte :: next :: rest) h (by simp)
    have hpow : 0 < 256 ^ ((byte :: next :: rest).length - 2) := Nat.pow_pos (by norm_num)
    omega

theorem length_le_of_decodeMagnitude {a b : List UInt8} (ha : isMinimal a = true)
    (h : (decodeMagnitude a).2 = (decodeMagnitude b).2) : a.length ≤ b.length := by
  by_contra hlt
  by_cases hb : b = []
  · subst hb
    have hpos := decodeMagnitude_pos ha (by simpa using hlt)
    simp only [h, decodeMagnitude, lt_self_iff_false] at hpos
  · have hlen := List.length_pos_of_ne_nil hb
    have hlow := le_decodeMagnitude a ha (by omega)
    have hhigh := decodeMagnitude_lt b
    have hpow : 256 ^ (b.length - 1) ≤ 256 ^ (a.length - 2) :=
      Nat.pow_le_pow_right (by norm_num) (by omega)
    omega

theorem decodeMagnitude_inj {a b : List UInt8} (hlen : a.length = b.length)
    (h : decodeMagnitude a = decodeMagnitude b) : a = b := by
  induction a generalizing b with
  | nil => exact (List.length_eq_zero_iff.mp hlen.symm).symm
  | cons byte rest ih =>
    obtain ⟨byte', rest', rfl⟩ := List.exists_cons_of_length_pos (by rw [← hlen]; simp)
    simp only [List.length_cons, Nat.add_right_cancel_iff] at hlen
    have hbyte : byte.toNat < 256 := byte.toNat_lt
    have hbyte' : byte'.toNat < 256 := byte'.toNat_lt
    by_cases hrest : rest = []
    · subst hrest
      obtain rfl := List.length_eq_zero_iff.mp hlen.symm
      simp only [decodeMagnitude, Prod.mk.injEq, decide_eq_decide] at h
      rw [UInt8.toNat_inj.mp (show byte.toNat = byte'.toNat by omega)]
    · have hrest' : rest' ≠ [] := by
        intro hnil
        simp [hnil, hrest] at hlen
      rw [decodeMagnitude_cons hrest, decodeMagnitude_cons hrest', Prod.mk.injEq] at h
      have hhigh : (decodeMagnitude rest).2 = (decodeMagnitude rest').2 := by omega
      rw [ih hlen (Prod.ext h.1 hhigh)]
      rw [UInt8.toNat_inj.mp (show byte.toNat = byte'.toNat by omega)]

theorem natAbs_decode (bytes : List UInt8) : (decode bytes).natAbs = (decodeMagnitude bytes).2 := by
  simp only [decode]
  split_ifs <;> simp

theorem decode_neg_iff {bytes : List UInt8} (h : 0 < (decodeMagnitude bytes).2) :
    decode bytes < 0 ↔ (decodeMagnitude bytes).1 = true := by
  simp only [decode]
  split_ifs with hsign
  · simpa [hsign] using h
  · simp [hsign]

/-- A number has one minimal encoding. -/
theorem decode_inj {a b : List UInt8} (ha : isMinimal a = true) (hb : isMinimal b = true)
    (h : decode a = decode b) : a = b := by
  have hmagnitude : (decodeMagnitude a).2 = (decodeMagnitude b).2 := by
    rw [← natAbs_decode, ← natAbs_decode, h]
  have hlen : a.length = b.length := by
    apply Nat.le_antisymm
    · exact length_le_of_decodeMagnitude ha hmagnitude
    · exact length_le_of_decodeMagnitude hb hmagnitude.symm
  by_cases hnil : a = []
  · subst hnil
    exact (List.length_eq_zero_iff.mp hlen.symm).symm
  · have hpos := decodeMagnitude_pos ha hnil
    have hsign : (decodeMagnitude a).1 = true ↔ (decodeMagnitude b).1 = true := by
      rw [← decode_neg_iff hpos, ← decode_neg_iff (hmagnitude ▸ hpos), h]
    exact decodeMagnitude_inj hlen (Prod.ext (Bool.eq_iff_iff.mpr hsign) hmagnitude)

end

end KaspaScript.Library.ScriptNum
