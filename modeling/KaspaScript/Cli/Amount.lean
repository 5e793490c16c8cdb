import KaspaScript.Lexer.Lexer
import KaspaScript.Library.Fallible
import KaspaScript.Parser.Parser
import Mathlib.Data.Nat.Digits.Lemmas

namespace KaspaScript.Cli

open Library (bind_eq_ok mapError_eq_ok pure_eq_ok)

/-- Why the standard library refuses to read an integer. -/
inductive IntErrorKind where
  | empty | invalidDigit | posOverflow
  deriving DecidableEq, Repr

inductive AmountError where
  | parseInt (kind : IntErrorKind)
  | text (message : String)
  deriving DecidableEq, Repr

/-- Value of a decimal digit. -/
def digitValue (c : Char) : Nat := c.toNat - '0'.toNat

/-- Value of a text of digits, the most significant one first. -/
def decimalOf (digits : List Char) : Nat := Nat.ofDigits 10 (digits.map digitValue).reverse

/-- The digit loop of the standard library's integer parser. -/
def readDigits : Nat → List Char → Except IntErrorKind Nat
  | value, [] => .ok value
  | value, c :: rest =>
      if c.isDigit then
        if 10 * value + digitValue c ≤ u64Max then readDigits (10 * value + digitValue c) rest
        else .error .posOverflow
      else .error .invalidDigit

/-- `u64::from_str`: one plus sign is let through, then at least one digit has to follow. -/
def fromStrU64 : List Char → Except IntErrorKind Nat
  | [] => .error .empty
  | ['+'] => .error .invalidDigit
  | '+' :: rest => readDigits 0 rest
  | cs => readDigits 0 cs

/-- The text before the first point, and the text after it; without a point nothing is after. -/
def splitAmount (value : List Char) : List Char × List Char :=
  (value.takeWhile (· != '.'), (value.dropWhile (· != '.')).tail)

/-- Zeros up to eight bytes. -/
def padFraction (frac : List Char) : List Char := frac ++ List.replicate (8 - byteLength frac) '0'

/-- The text behind the point, in units of the eighth place. -/
def parseFraction (frac : List Char) : Except AmountError Nat :=
  if 8 < byteLength frac then .error (.text "amount has more than 8 decimal places")
  else if padFraction frac = [] then .ok 0
  else (fromStrU64 (padFraction frac)).mapError .parseInt

/-- `checked_mul`, then `checked_add`. -/
def checkedAmount (whole frac : Nat) : Except AmountError Nat :=
  if whole * 100000000 ≤ u64Max ∧ whole * 100000000 + frac ≤ u64Max then
    .ok (whole * 100000000 + frac)
  else .error (.text "amount overflow")

def parseKaspaAmount (value : String) : Except AmountError Nat := do
  let whole ← (fromStrU64 (splitAmount value.toList).1).mapError .parseInt
  let frac ← parseFraction (splitAmount value.toList).2
  checkedAmount whole frac

/-- Only decimal digits. -/
def Digits (cs : List Char) : Prop := ∀ c ∈ cs, c.isDigit = true

instance (cs : List Char) : Decidable (Digits cs) := inferInstanceAs (Decidable (∀ c ∈ cs, _))

/-- An amount as it should be written, and the sompi it stands for: its value in KAS, with `frac`
behind the point, times `10 ^ 8`. -/
def Reads (value : List Char) (n : Nat) : Prop :=
  ∃ whole frac, (value = whole ∧ frac = [] ∨ value = whole ++ '.' :: frac) ∧ whole ≠ [] ∧
    Digits whole ∧ Digits frac ∧ frac.length ≤ 8 ∧
    (decimalOf whole * 10 ^ frac.length + decimalOf frac) * 10 ^ 8 = n * 10 ^ frac.length

theorem decimalOf_append (digits rest : List Char) :
    decimalOf (digits ++ rest) = decimalOf digits * 10 ^ rest.length + decimalOf rest := by
  unfold decimalOf
  rw [List.map_append, List.reverse_append, Nat.ofDigits_append, List.length_reverse,
    List.length_map]
  ring

theorem decimalOf_zeros (k : Nat) : decimalOf (List.replicate k '0') = 0 := by
  induction k with
  | zero => rfl
  | succ k ih =>
    rw [List.replicate_succ', decimalOf_append, ih]
    rfl

theorem digitValue_lt {c : Char} (h : c.isDigit = true) : digitValue c < 10 := by
  have hrange : c.val ≤ '9'.val := by
    simp only [Char.isDigit, Bool.and_eq_true, decide_eq_true_eq] at h
    exact h.2
  rw [UInt32.le_iff_toNat_le] at hrange
  have hnine : c.toNat ≤ 57 := hrange
  have hzero : '0'.toNat = 48 := rfl
  unfold digitValue
  omega

theorem decimalOf_lt {digits : List Char} (h : Digits digits) :
    decimalOf digits < 10 ^ digits.length := by
  have hlt := Nat.ofDigits_lt_base_pow_length (b := 10) (l := (digits.map digitValue).reverse)
    (by decide) (by
      intro d hd
      obtain ⟨c, hc, rfl⟩ := List.mem_map.mp (List.mem_reverse.mp hd)
      exact digitValue_lt (h c hc))
  rwa [List.length_reverse, List.length_map] at hlt

theorem digits_cons {c : Char} {rest : List Char} :
    Digits (c :: rest) ↔ c.isDigit = true ∧ Digits rest :=
  List.forall_mem_cons

theorem digits_append {cs rest : List Char} : Digits (cs ++ rest) ↔ Digits cs ∧ Digits rest :=
  List.forall_mem_append

theorem digits_zeros (k : Nat) : Digits (List.replicate k '0') := by
  intro c hc
  rw [List.eq_of_mem_replicate hc]
  rfl

/-- A point or a sign is no digit. -/
theorem not_digits_of_mem {cs : List Char} {c : Char} (hc : c ∈ cs) (h : c.isDigit = false) :
    ¬ Digits cs := by
  intro hdigits
  rw [hdigits c hc] at h
  cases h

/-- The digit loop reads the digits on behind the value so far. -/
theorem readDigits_eq_ok {cs : List Char} {value result : Nat} (hvalue : value ≤ u64Max) :
    readDigits value cs = .ok result ↔
      Digits cs ∧ result = value * 10 ^ cs.length + decimalOf cs ∧ result ≤ u64Max := by
  induction cs generalizing value with
  | nil =>
    rw [readDigits, Except.ok.injEq]
    constructor
    · intro h
      subst h
      exact ⟨by simp [Digits], by simp [decimalOf], hvalue⟩
    · intro h
      have hresult := h.2.1
      simpa [decimalOf] using hresult.symm
  | cons c cs ih =>
    have hstep : value * 10 ^ (c :: cs).length + decimalOf (c :: cs) =
        (10 * value + digitValue c) * 10 ^ cs.length + decimalOf cs := by
      have hhead : decimalOf [c] = digitValue c := by simp [decimalOf]
      have hsplit := decimalOf_append [c] cs
      rw [List.singleton_append, hhead] at hsplit
      rw [hsplit, List.length_cons, pow_succ]
      ring
    rw [readDigits, digits_cons, hstep]
    by_cases hdigit : c.isDigit = true
    · rw [if_pos hdigit]
      by_cases hfits : 10 * value + digitValue c ≤ u64Max
      · rw [if_pos hfits, ih hfits]
        simp [hdigit]
      · rw [if_neg hfits]
        refine iff_of_false (by simp) ?_
        intro h
        obtain ⟨_, hresult, hle⟩ := h
        have hone : 1 ≤ 10 ^ cs.length := Nat.one_le_pow _ _ (by decide)
        have hmul := Nat.le_mul_of_pos_right (10 * value + digitValue c) hone
        omega
    · rw [if_neg hdigit]
      exact iff_of_false (by simp) fun h => hdigit h.1.1

/-- The text behind one plus sign, if it starts with one. -/
def dropSign : List Char → List Char
  | '+' :: rest => rest
  | cs => cs

theorem dropSign_of_digits {cs : List Char} (h : Digits cs) : dropSign cs = cs := by
  unfold dropSign
  split
  · exact absurd h (not_digits_of_mem (List.mem_cons_self ..) rfl)
  · rfl

theorem fromStrU64_eq_ok {cs : List Char} {result : Nat} :
    fromStrU64 cs = .ok result ↔ dropSign cs ≠ [] ∧ Digits (dropSign cs) ∧
      result = decimalOf (dropSign cs) ∧ result ≤ u64Max := by
  have hloop (digits : List Char) (hsome : digits ≠ []) : readDigits 0 digits = .ok result ↔
      digits ≠ [] ∧ Digits digits ∧ result = decimalOf digits ∧ result ≤ u64Max := by
    rw [readDigits_eq_ok (Nat.zero_le _), Nat.zero_mul, Nat.zero_add]
    simp [hsome]
  unfold fromStrU64
  split
  · simp [dropSign]
  · simp [dropSign]
  · rename_i rest hrest
    have hdrop : dropSign ('+' :: rest) = rest := rfl
    rw [hdrop]
    exact hloop rest fun hnil => hrest (by rw [hnil])
  · rename_i hnil _ hsign
    have hdrop : dropSign cs = cs := by
      unfold dropSign
      split
      · exact absurd rfl (hsign _)
      · rfl
    rw [hdrop]
    exact hloop cs hnil

theorem dropSign_append_zeros (cs : List Char) (k : Nat) :
    dropSign (cs ++ List.replicate k '0') = dropSign cs ++ List.replicate k '0' := by
  cases cs with
  | nil => exact dropSign_of_digits (digits_zeros k)
  | cons c cs =>
    unfold dropSign
    split <;> simp_all

theorem utf8Size_of_isDigit {c : Char} (h : c.isDigit = true) : c.utf8Size = 1 := by
  have hrange : c.val ≤ '9'.val := by
    simp only [Char.isDigit, Bool.and_eq_true, decide_eq_true_eq] at h
    exact h.2
  rw [Char.utf8Size_eq_one_iff, UInt32.le_iff_toNat_le]
  rw [UInt32.le_iff_toNat_le] at hrange
  exact Nat.le_trans hrange (by decide)

theorem byteLength_digits {cs : List Char} (h : Digits cs) : byteLength cs = cs.length := by
  induction cs with
  | nil => rfl
  | cons c cs ih =>
    obtain ⟨hdigit, hrest⟩ := digits_cons.mp h
    have hrest := ih hrest
    unfold byteLength at *
    rw [List.map_cons, List.sum_cons, hrest, utf8Size_of_isDigit hdigit, List.length_cons]
    omega

/-- A sign is one byte, as the digits are. -/
theorem byteLength_dropSign {cs : List Char} (h : Digits (dropSign cs)) :
    byteLength cs = cs.length := by
  unfold dropSign at h
  split at h
  · rename_i rest
    have hrest := byteLength_digits h
    have hsign : '+'.utf8Size = 1 := rfl
    unfold byteLength at *
    rw [List.map_cons, List.sum_cons, hrest, hsign, List.length_cons]
    omega
  · exact byteLength_digits h

theorem dropSign_eq_nil {cs : List Char} (h : dropSign cs = []) : cs.length ≤ 1 := by
  unfold dropSign at h
  split at h
  · rw [h]
    rfl
  · rw [h]
    exact Nat.zero_le _

/-- The padded fraction is read with its sign, in units of the eighth place. -/
theorem fromStrU64_padFraction {frac : List Char} {result : Nat} (hbytes : byteLength frac ≤ 8) :
    fromStrU64 (padFraction frac) = .ok result ↔ Digits (dropSign frac) ∧ frac.length ≤ 8 ∧
      result = decimalOf (dropSign frac) * 10 ^ (8 - frac.length) := by
  rw [fromStrU64_eq_ok, padFraction, dropSign_append_zeros, digits_append, decimalOf_append,
    decimalOf_zeros, List.length_replicate, Nat.add_zero]
  constructor
  · intro h
    obtain ⟨_, hdigits, hresult, _⟩ := h
    have hlength := byteLength_dropSign hdigits.1
    rw [hlength] at hresult hbytes
    exact ⟨hdigits.1, hbytes, hresult⟩
  · intro h
    obtain ⟨hdigits, hshort, hresult⟩ := h
    have hlength := byteLength_dropSign hdigits
    rw [hlength]
    refine ⟨?_, ⟨hdigits, digits_zeros _⟩, hresult, ?_⟩
    · intro hnil
      obtain ⟨hdrop, hzeros⟩ := List.append_eq_nil_iff.mp hnil
      have hshort' := dropSign_eq_nil hdrop
      have hpad := congrArg List.length hzeros
      rw [List.length_replicate, List.length_nil] at hpad
      omega
    · have hplaces : (dropSign frac).length + (8 - frac.length) ≤ 8 := by
        have hdrop : (dropSign frac).length ≤ frac.length := by
          unfold dropSign
          split <;> simp
        omega
      have hlt := decimalOf_lt hdigits
      have hscaled : result < 10 ^ ((dropSign frac).length + (8 - frac.length)) := by
        rw [hresult, pow_add]
        exact Nat.mul_lt_mul_of_pos_right hlt (by positivity)
      have hmost := Nat.pow_le_pow_right (n := 10) (by decide) hplaces
      have hmax : 10 ^ 8 ≤ u64Max := by decide
      omega

theorem parseFraction_eq_ok {frac : List Char} {result : Nat} :
    parseFraction frac = .ok result ↔ Digits (dropSign frac) ∧ frac.length ≤ 8 ∧
      result = decimalOf (dropSign frac) * 10 ^ (8 - frac.length) := by
  unfold parseFraction
  by_cases hbytes : 8 < byteLength frac
  · rw [if_pos hbytes]
    refine iff_of_false (by simp) ?_
    intro h
    have hlength := byteLength_dropSign h.1
    omega
  · have hpadded : padFraction frac ≠ [] := by
      intro hnil
      obtain ⟨hfrac, hzeros⟩ := List.append_eq_nil_iff.mp hnil
      rw [hfrac] at hzeros
      cases hzeros
    rw [if_neg hbytes, if_neg hpadded, mapError_eq_ok]
    exact fromStrU64_padFraction (Nat.le_of_not_lt hbytes)

theorem checkedAmount_eq_ok {whole frac result : Nat} :
    checkedAmount whole frac = .ok result ↔
      result = whole * 10 ^ 8 + frac ∧ result ≤ u64Max := by
  unfold checkedAmount
  by_cases hfits : whole * 100000000 ≤ u64Max ∧ whole * 100000000 + frac ≤ u64Max
  · rw [if_pos hfits, Except.ok.injEq]
    omega
  · rw [if_neg hfits]
    refine iff_of_false (by simp) ?_
    omega

/-- The sompi a text stands for when the signs of its two parts are passed over. -/
def sompiOf (value : List Char) : Nat :=
  decimalOf (dropSign (splitAmount value).1) * 10 ^ 8 +
    decimalOf (dropSign (splitAmount value).2) * 10 ^ (8 - (splitAmount value).2.length)

/-- Digits in both parts, at least one before the point and at most eight characters behind it,
once a plus sign before each of them is passed over. -/
structure Shaped (value : List Char) : Prop where
  some : dropSign (splitAmount value).1 ≠ []
  whole : Digits (dropSign (splitAmount value).1)
  frac : Digits (dropSign (splitAmount value).2)
  places : (splitAmount value).2.length ≤ 8

/-- What the command line accepts. -/
theorem parseKaspaAmount_eq_ok {value : String} {n : Nat} :
    parseKaspaAmount value = .ok n ↔
      Shaped value.toList ∧ n = sompiOf value.toList ∧ n ≤ u64Max := by
  unfold parseKaspaAmount
  constructor
  · intro h
    obtain ⟨whole, hwhole, h⟩ := bind_eq_ok.mp h
    obtain ⟨frac, hfrac, h⟩ := bind_eq_ok.mp h
    obtain ⟨hsome, hdigits, rfl, _⟩ := fromStrU64_eq_ok.mp (mapError_eq_ok.mp hwhole)
    obtain ⟨hdigits', hplaces, rfl⟩ := parseFraction_eq_ok.mp hfrac
    exact ⟨⟨hsome, hdigits, hdigits', hplaces⟩, checkedAmount_eq_ok.mp h⟩
  · intro h
    obtain ⟨hshaped, hn, hmax⟩ := h
    have hwhole : decimalOf (dropSign (splitAmount value.toList).1) ≤ u64Max := by
      unfold sompiOf at hn
      omega
    refine bind_eq_ok.mpr ⟨_, mapError_eq_ok.mpr
      (fromStrU64_eq_ok.mpr ⟨hshaped.some, hshaped.whole, rfl, hwhole⟩), ?_⟩
    refine bind_eq_ok.mpr ⟨_, parseFraction_eq_ok.mpr ⟨hshaped.frac, hshaped.places, rfl⟩, ?_⟩
    exact checkedAmount_eq_ok.mpr ⟨hn, hmax⟩

theorem splitAmount_point {whole : List Char} (h : Digits whole) (frac : List Char) :
    splitAmount (whole ++ '.' :: frac) = (whole, frac) := by
  have hplain : ∀ c ∈ whole, (c != '.') = true := by
    intro c hc
    have hne : c ≠ '.' := by
      intro heq
      exact not_digits_of_mem (heq ▸ hc) rfl h
    simpa using hne
  unfold splitAmount
  rw [List.takeWhile_append_of_pos hplain, List.dropWhile_append_of_pos hplain]
  simp

theorem splitAmount_whole {whole : List Char} (h : Digits whole) :
    splitAmount whole = (whole, []) := by
  have hplain : ∀ c ∈ whole, (c != '.') = true := by
    intro c hc
    have hne : c ≠ '.' := by
      intro heq
      exact not_digits_of_mem (heq ▸ hc) rfl h
    simpa using hne
  unfold splitAmount
  rw [List.takeWhile_eq_self_iff.mpr hplain, List.dropWhile_eq_nil_iff.mpr hplain]
  rfl

/-- The text is split where its first point stands. -/
theorem splitAmount_join (value : List Char) :
    (value = (splitAmount value).1 ∧ (splitAmount value).2 = []) ∨
      value = (splitAmount value).1 ++ '.' :: (splitAmount value).2 := by
  unfold splitAmount
  have hsplit := List.takeWhile_append_dropWhile (p := (· != '.')) (l := value)
  have hhead := List.head?_dropWhile_not (· != '.') value
  cases hdrop : value.dropWhile (· != '.') with
  | nil =>
    rw [hdrop, List.append_nil] at hsplit
    exact .inl ⟨hsplit.symm, rfl⟩
  | cons c rest =>
    have hpoint : c = '.' := by simpa [hdrop] using hhead
    rw [hdrop, hpoint] at hsplit
    exact .inr hsplit.symm

/-- `frac` places behind the point are worth `10 ^ (8 - frac)` sompi each. -/
theorem sompi_iff {whole frac places n : Nat} (h : places ≤ 8) :
    (whole * 10 ^ places + frac) * 10 ^ 8 = n * 10 ^ places ↔
      n = whole * 10 ^ 8 + frac * 10 ^ (8 - places) := by
  have hscale : 10 ^ 8 = 10 ^ (8 - places) * 10 ^ places := by
    rw [← pow_add, Nat.sub_add_cancel h]
  have hvalue : (whole * 10 ^ places + frac) * 10 ^ 8 =
      (whole * 10 ^ 8 + frac * 10 ^ (8 - places)) * 10 ^ places := by
    rw [hscale]
    ring
  rw [hvalue]
  constructor
  · intro heq
    exact (Nat.eq_of_mul_eq_mul_right (by positivity) heq).symm
  · intro heq
    rw [heq]

theorem reads_iff {value : List Char} {n : Nat} :
    Reads value n ↔ (splitAmount value).1 ≠ [] ∧ Digits (splitAmount value).1 ∧
      Digits (splitAmount value).2 ∧ (splitAmount value).2.length ≤ 8 ∧
      n = decimalOf (splitAmount value).1 * 10 ^ 8 +
        decimalOf (splitAmount value).2 * 10 ^ (8 - (splitAmount value).2.length) := by
  constructor
  · intro h
    obtain ⟨whole, frac, htext, hsome, hwhole, hfrac, hplaces, hn⟩ := h
    have hsplit : splitAmount value = (whole, frac) := by
      rcases htext with hwholeOnly | hboth
      · obtain ⟨rfl, rfl⟩ := hwholeOnly
        exact splitAmount_whole hwhole
      · rw [hboth]
        exact splitAmount_point hwhole frac
    rw [hsplit]
    exact ⟨hsome, hwhole, hfrac, hplaces, (sompi_iff hplaces).mp hn⟩
  · intro h
    obtain ⟨hsome, hwhole, hfrac, hplaces, hn⟩ := h
    exact ⟨_, _, splitAmount_join value, hsome, hwhole, hfrac, hplaces, (sompi_iff hplaces).mpr hn⟩

/-- A plus sign stands at the start of the text or right behind its first point. -/
def HasSign (value : List Char) : Prop :=
  (splitAmount value).1.head? = some '+' ∨ (splitAmount value).2.head? = some '+'

theorem dropSign_of_head {cs : List Char} (h : cs.head? ≠ some '+') : dropSign cs = cs := by
  unfold dropSign
  split
  · exact absurd rfl h
  · rfl

/-- Without a sign, what is accepted is an amount as it should be written. -/
theorem reads_iff_shaped {value : List Char} (h : ¬ HasSign value) {n : Nat} :
    Reads value n ↔ Shaped value ∧ n = sompiOf value := by
  obtain ⟨hwhole, hfrac⟩ := not_or.mp h
  have hdrop := dropSign_of_head hwhole
  have hdrop' := dropSign_of_head hfrac
  rw [reads_iff, sompiOf, hdrop, hdrop']
  constructor
  · intro h
    obtain ⟨hsome, hdigits, hdigits', hplaces, hn⟩ := h
    refine ⟨⟨?_, ?_, ?_, hplaces⟩, hn⟩
    · rwa [hdrop]
    · rwa [hdrop]
    · rwa [hdrop']
  · intro h
    obtain ⟨hshaped, hn⟩ := h
    have hsome := hshaped.some
    have hdigits := hshaped.whole
    have hdigits' := hshaped.frac
    rw [hdrop] at hsome hdigits
    rw [hdrop'] at hdigits'
    exact ⟨hsome, hdigits, hdigits', hshaped.places, hn⟩

theorem not_reads_of_hasSign {value : List Char} (h : HasSign value) {n : Nat} :
    ¬ Reads value n := by
  intro hreads
  obtain ⟨_, hwhole, hfrac, _⟩ := reads_iff.mp hreads
  rcases h with hsign | hsign
  · exact not_digits_of_mem (List.mem_of_mem_head? hsign) rfl hwhole
  · exact not_digits_of_mem (List.mem_of_mem_head? hsign) rfl hfrac

/-- Amounts are read as written, except where a plus sign is let through. -/
theorem parseKaspaAmount_reads_iff (value : String) :
    (∀ n, parseKaspaAmount value = .ok n ↔ Reads value.toList n ∧ n < 2 ^ 64) ↔
      ¬ (HasSign value.toList ∧ Shaped value.toList ∧ sompiOf value.toList < 2 ^ 64) := by
  have hmax : u64Max + 1 = 2 ^ 64 := rfl
  constructor
  · intro h hsigned
    obtain ⟨hsign, hshaped, hfits⟩ := hsigned
    have haccepted := parseKaspaAmount_eq_ok.mpr ⟨hshaped, rfl, by omega⟩
    exact not_reads_of_hasSign hsign ((h _).mp haccepted).1
  · intro h n
    rw [parseKaspaAmount_eq_ok]
    by_cases hsign : HasSign value.toList
    · refine iff_of_false ?_ fun hreads => not_reads_of_hasSign hsign hreads.1
      intro haccepted
      obtain ⟨hshaped, rfl, hle⟩ := haccepted
      exact h ⟨hsign, hshaped, by omega⟩
    · rw [reads_iff_shaped hsign]
      constructor
      · intro haccepted
        obtain ⟨hshaped, hn, hle⟩ := haccepted
        exact ⟨⟨hshaped, hn⟩, by omega⟩
      · intro hreads
        obtain ⟨⟨hshaped, hn⟩, hlt⟩ := hreads
        exact ⟨hshaped, hn, by omega⟩

/-- `1.+5` is read as 1.05 KAS. -/
theorem parseKaspaAmount_reads_sign :
    parseKaspaAmount "1.+5" = .ok 105000000 ∧ ¬ Reads "1.+5".toList 105000000 := by
  constructor
  · decide +kernel
  · exact not_reads_of_hasSign (.inr rfl)

end KaspaScript.Cli
