import Mathlib.Data.List.Basic
import Mathlib.Data.List.TakeWhile

namespace KaspaScript.Library

/-- Regular expressions over characters, with character classes. -/
inductive Regex where
  | eps
  | set (p : Char → Bool)
  | seq (r r' : Regex)
  | alt (r r' : Regex)
  | star (r : Regex)

namespace Regex

inductive Matches : Regex → List Char → Prop
  | eps : Matches .eps []
  | set {p : Char → Bool} {c : Char} : p c = true → Matches (.set p) [c]
  | seq {r r' : Regex} {s s' : List Char} : Matches r s → Matches r' s' → Matches (.seq r r') (s ++ s')
  | altLeft {r r' : Regex} {s : List Char} : Matches r s → Matches (.alt r r') s
  | altRight {r r' : Regex} {s : List Char} : Matches r' s → Matches (.alt r r') s
  | starNil {r : Regex} : Matches (.star r) []
  | starCons {r : Regex} {s s' : List Char} :
      Matches r s → Matches (.star r) s' → Matches (.star r) (s ++ s')

/-- One class after the other, then a last expression. -/
def heads : List (Char → Bool) → Regex → Regex
  | [], last => last
  | p :: ps, last => .seq (.set p) (heads ps last)

/-- The characters of a text, one by one. -/
def chars (text : List Char) : List (Char → Bool) := text.map fun c d => d == c

theorem matches_set_iff (p : Char → Bool) (s : List Char) :
    Matches (.set p) s ↔ ∃ c, p c = true ∧ s = [c] := by
  constructor
  · rintro ⟨⟩
    exact ⟨_, by assumption, rfl⟩
  · rintro ⟨c, hc, rfl⟩
    exact .set hc

theorem matches_seq_iff (r r' : Regex) (s : List Char) :
    Matches (.seq r r') s ↔ ∃ u v, Matches r u ∧ Matches r' v ∧ s = u ++ v := by
  constructor
  · rintro ⟨⟩
    exact ⟨_, _, by assumption, by assumption, rfl⟩
  · rintro ⟨u, v, hu, hv, rfl⟩
    exact .seq hu hv

theorem matches_star_set_iff (q : Char → Bool) (s : List Char) :
    Matches (.star (.set q)) s ↔ ∀ c ∈ s, q c = true := by
  constructor
  · intro h
    generalize hr : Regex.star (.set q) = r at h
    induction h with
    | eps | set | seq | altLeft | altRight => cases hr
    | starNil => simp
    | starCons hu _ _ ih =>
      cases hr
      obtain ⟨c, hc, rfl⟩ := (matches_set_iff q _).mp hu
      simpa [hc] using ih rfl
  · intro h
    induction s with
    | nil => exact .starNil
    | cons c s ih =>
      exact @Matches.starCons _ [c] s (.set (h c (by simp))) (ih fun d hd => h d (by simp [hd]))

end Regex

/-- `n` is the length of the longest non-empty beginning of `s` in the language of `r`;
`none` if there is none. -/
def IsLongest (r : Regex) (s : List Char) : Option Nat → Prop
  | none => ∀ m, 0 < m → m ≤ s.length → ¬ r.Matches (s.take m)
  | some n => 0 < n ∧ n ≤ s.length ∧ r.Matches (s.take n) ∧
      ∀ m, n < m → m ≤ s.length → ¬ r.Matches (s.take m)

/-- A token pattern with a scanner for its longest match. -/
structure Rule (κ : Type) where
  pattern : Regex
  scan : List Char → Option Nat
  action : List Char → κ
  longest : ∀ s, IsLongest pattern s (scan s)

/-- Length of the longest match of a fixed run of classes followed by any number of `q`. -/
def scanRun (q : Char → Bool) : List (Char → Bool) → List Char → Option Nat
  | [], s => some (s.takeWhile q).length
  | p :: ps, c :: s => if p c then (scanRun q ps s).map (· + 1) else none
  | _ :: _, [] => none

theorem heads_star_match (q : Char → Bool) (ps : List (Char → Bool)) (s : List Char) (m : Nat)
    (hm : m ≤ s.length) :
    (Regex.heads ps (.star (.set q))).Matches (s.take m) ↔
      ∃ n, scanRun q ps s = some n ∧ ps.length ≤ m ∧ m ≤ n := by
  induction ps generalizing s m with
  | nil =>
    simp only [Regex.heads, Regex.matches_star_set_iff, scanRun, Option.some.injEq,
      exists_eq_left', List.length_nil, Nat.zero_le, true_and]
    induction s generalizing m with
    | nil => simp at hm; simp [hm]
    | cons c s ih =>
      cases m with
      | zero => simp
      | succ m =>
        have hm' : m ≤ s.length := by simpa using hm
        by_cases hc : q c <;> simp [hc, ih m hm']
  | cons p ps ih =>
    simp only [Regex.heads, Regex.matches_seq_iff, Regex.matches_set_iff]
    cases s with
    | nil =>
      simp only [List.take_nil, scanRun, reduceCtorEq, false_and, exists_const, iff_false]
      rintro ⟨u, v, ⟨c, _, rfl⟩, _, h⟩
      simp at h
    | cons c s =>
      cases m with
      | zero => simp
      | succ m =>
        have hm' : m ≤ s.length := by simpa using hm
        have key : (∃ u v, (∃ d, p d = true ∧ u = [d]) ∧
            (Regex.heads ps (.star (.set q))).Matches v ∧ (c :: s).take (m + 1) = u ++ v) ↔
            p c = true ∧ (Regex.heads ps (.star (.set q))).Matches (s.take m) := by
          constructor
          · rintro ⟨u, v, ⟨d, hd, rfl⟩, hv, h⟩
            simp only [List.take_succ_cons, List.singleton_append, List.cons.injEq] at h
            exact ⟨h.1 ▸ hd, h.2 ▸ hv⟩
          · rintro ⟨hp, hv⟩
            exact ⟨[c], s.take m, ⟨c, hp, rfl⟩, hv, by simp⟩
        rw [key, ih s m hm']
        by_cases hp : p c
        · simp only [hp, true_and, scanRun, if_true, Option.map_eq_some_iff, List.length_cons]
          constructor
          · rintro ⟨n, hn, h1, h2⟩
            exact ⟨n + 1, ⟨n, hn, rfl⟩, by omega, by omega⟩
          · rintro ⟨_, ⟨n, hn, rfl⟩, h1, h2⟩
            exact ⟨n, hn, by omega, by omega⟩
        · simp [hp, scanRun]

theorem scanRun_bounds (q : Char → Bool) (ps : List (Char → Bool)) (s : List Char) (n : Nat)
    (h : scanRun q ps s = some n) : ps.length ≤ n ∧ n ≤ s.length := by
  induction ps generalizing s n with
  | nil =>
    simp only [scanRun, Option.some.injEq] at h
    subst n
    exact ⟨Nat.zero_le _, (List.takeWhile_sublist _).length_le⟩
  | cons p ps ih =>
    cases s with
    | nil => simp [scanRun] at h
    | cons c s =>
      by_cases hp : p c
      · simp only [scanRun, hp, if_true, Option.map_eq_some_iff] at h
        obtain ⟨k, hk, rfl⟩ := h
        have hb := ih s k hk
        simp only [List.length_cons]
        omega
      · simp [scanRun, hp] at h

/-- A non-empty run of classes followed by any number of `q`. -/
def Rule.run {κ : Type} (p : Char → Bool) (ps : List (Char → Bool)) (q : Char → Bool)
    (action : List Char → κ) : Rule κ where
  pattern := Regex.heads (p :: ps) (.star (.set q))
  scan := scanRun q (p :: ps)
  action := action
  longest := by
    intro s
    cases h : scanRun q (p :: ps) s with
    | none =>
      intro m _ hm hr
      obtain ⟨n, hn, _⟩ := (heads_star_match q (p :: ps) s m hm).mp hr
      rw [h] at hn
      cases hn
    | some n =>
      have hb := scanRun_bounds q (p :: ps) s n h
      refine ⟨by simp only [List.length_cons] at hb; omega, hb.2,
        (heads_star_match q (p :: ps) s n hb.2).mpr ⟨n, h, hb.1, le_rfl⟩, ?_⟩
      intro m hlt hm hr
      obtain ⟨k, hk, _, hle⟩ := (heads_star_match q (p :: ps) s m hm).mp hr
      rw [h] at hk
      cases hk
      omega

/-- Scans single characters in `p` and pairs in `q`, `r` up to the closing characters. -/
def scanClose (p q r : Char → Bool) (a : Char) (close : List Char) : List Char → Option Nat
  | [] => none
  | c :: s =>
      if c = a ∧ close.isPrefixOf s then some (close.length + 1)
      else if p c then (scanClose p q r a close s).map (· + 1)
      else match s with
        | [] => none
        | d :: s' => if q c ∧ r d then (scanClose p q r a close s').map (· + 2) else none

theorem scanClose_cons (p q r : Char → Bool) (a : Char) (close : List Char) (c : Char)
    (s : List Char) : scanClose p q r a close (c :: s) =
      if c = a ∧ close.isPrefixOf s then some (close.length + 1)
      else if p c then (scanClose p q r a close s).map (· + 1)
      else match s with
        | [] => none
        | d :: s' => if q c ∧ r d then (scanClose p q r a close s').map (· + 2) else none := by
  cases s <;> rfl

/-- The language of what stands before the closing characters. -/
def bodyRegex (p q r : Char → Bool) : Regex :=
  .star (.alt (.set p) (.seq (.set q) (.set r)))

/-- Neither a single nor a pair can begin like the closing characters. -/
def CloseApart (p q r : Char → Bool) (a : Char) (close : List Char) : Prop :=
  p a = false ∧ (q a = true → ∃ b rest, close = b :: rest ∧ r b = false) ∧
    ∀ c, p c = true → q c = false

theorem scanClose_body (p q r : Char → Bool) (a : Char) (close : List Char)
    (hap : CloseApart p q r a close) (body rest : List Char)
    (hb : (bodyRegex p q r).Matches body) :
    scanClose p q r a close (body ++ a :: close ++ rest) = some (body.length + close.length + 1) := by
  obtain ⟨hpa, hqa, hpq⟩ := hap
  generalize hg : bodyRegex p q r = g at hb
  induction hb with
  | eps | set | seq | altLeft | altRight => cases hg
  | starNil => simp [scanClose_cons]
  | @starCons _ u v hu _ _ ih =>
    cases hg
    have ih := ih rfl
    cases hu with
    | altLeft hu =>
      obtain ⟨c, hc, rfl⟩ := (Regex.matches_set_iff p _).mp hu
      have hca : c ≠ a := by
        rintro rfl
        simp [hpa] at hc
      have hskip := scanClose_cons p q r a close c (v ++ a :: close ++ rest)
      rw [if_neg (fun h => hca h.1), if_pos hc, ih] at hskip
      simpa [Nat.add_right_comm] using hskip
    | altRight hu =>
      obtain ⟨x, y, hx, hy, rfl⟩ := (Regex.matches_seq_iff _ _ _).mp hu
      obtain ⟨c, hc, rfl⟩ := (Regex.matches_set_iff q _).mp hx
      obtain ⟨d, hd, rfl⟩ := (Regex.matches_set_iff r _).mp hy
      have hpc : ¬ p c = true := fun h => by simp [hpq c h] at hc
      have hclose : ¬ (c = a ∧ close.isPrefixOf (d :: (v ++ a :: close ++ rest)) = true) := by
        rintro ⟨rfl, hpre⟩
        obtain ⟨b, close', rfl, hb⟩ := hqa hc
        simp only [List.isPrefixOf, Bool.and_eq_true, beq_iff_eq] at hpre
        rw [hpre.1, hd] at hb
        cases hb
      have hskip := scanClose_cons p q r a close c (d :: (v ++ a :: close ++ rest))
      rw [if_neg hclose, if_neg hpc] at hskip
      simp only [hc, hd, and_self, if_true, ih, Option.map_some] at hskip
      simpa [Nat.add_right_comm] using hskip

theorem body_of_scanClose (p q r : Char → Bool) (a : Char) (close : List Char) (s : List Char)
    (n : Nat) (h : scanClose p q r a close s = some n) :
    ∃ body rest, (bodyRegex p q r).Matches body ∧ s = body ++ a :: close ++ rest ∧
      n = body.length + close.length + 1 := by
  -- the scanner may consume one or two characters, so the induction is on the length
  induction hl : s.length using Nat.strong_induction_on generalizing s n with
  | _ l ih =>
    cases s with
    | nil => simp [scanClose] at h
    | cons c s =>
      subst hl
      rw [scanClose_cons] at h
      split_ifs at h with hclose hp
      · obtain ⟨rfl, hpre⟩ := hclose
        obtain ⟨rest, rfl⟩ := List.isPrefixOf_iff_prefix.mp hpre
        exact ⟨[], rest, .starNil, rfl, by simpa using h.symm⟩
      · obtain ⟨k, hk, rfl⟩ := Option.map_eq_some_iff.mp h
        obtain ⟨body, rest, hb, rfl, rfl⟩ := ih _ (by simp) s k hk rfl
        exact ⟨c :: body, rest, @Regex.Matches.starCons _ [c] _ (.altLeft (.set hp)) hb, rfl,
          by simp only [List.length_cons]; omega⟩
      · cases s with
        | nil => simp at h
        | cons d s =>
          simp only at h
          split_ifs at h with hqr
          obtain ⟨k, hk, rfl⟩ := Option.map_eq_some_iff.mp h
          obtain ⟨body, rest, hb, rfl, rfl⟩ := ih s.length (by simp only [List.length_cons]; omega) s k hk rfl
          have hu : (Regex.seq (.set q) (.set r)).Matches [c, d] :=
            @Regex.Matches.seq _ _ [c] [d] (.set hqr.1) (.set hqr.2)
          exact ⟨c :: d :: body, rest, @Regex.Matches.starCons _ [c, d] _ (.altRight hu) hb, rfl,
            by simp only [List.length_cons]; omega⟩

theorem Regex.matches_chars_iff (text : List Char) (r : Regex) (s : List Char) :
    (Regex.heads (Regex.chars text) r).Matches s ↔ ∃ v, s = text ++ v ∧ r.Matches v := by
  induction text generalizing s with
  | nil => simp [Regex.chars, Regex.heads]
  | cons c text ih =>
    change (Regex.seq (.set (· == c)) (Regex.heads (Regex.chars text) r)).Matches s ↔ _
    rw [Regex.matches_seq_iff]
    constructor
    · rintro ⟨u, w, hu, hw, rfl⟩
      obtain ⟨d, hd, rfl⟩ := (Regex.matches_set_iff _ _).mp hu
      obtain ⟨v, rfl, hv⟩ := (ih w).mp hw
      exact ⟨v, by simp [beq_iff_eq.mp hd], hv⟩
    · rintro ⟨v, rfl, hv⟩
      exact ⟨[c], text ++ v, .set (by simp), (ih _).mpr ⟨v, rfl, hv⟩, rfl⟩

theorem Regex.matches_eps_iff (s : List Char) : Regex.eps.Matches s ↔ s = [] := by
  constructor
  · rintro ⟨⟩
    rfl
  · rintro rfl
    exact .eps

theorem literal_match_iff (text s : List Char) (m : Nat) :
    m ≤ s.length ∧ (Regex.heads (Regex.chars text) .eps).Matches (s.take m) ↔
      text.isPrefixOf s ∧ m = text.length := by
  rw [Regex.matches_chars_iff]
  constructor
  · rintro ⟨hm, v, hv, he⟩
    obtain rfl := (Regex.matches_eps_iff v).mp he
    rw [List.append_nil] at hv
    have hlen := congrArg List.length hv
    rw [List.length_take, Nat.min_eq_left hm] at hlen
    exact ⟨List.isPrefixOf_iff_prefix.mpr ⟨s.drop m, by rw [← hv, List.take_append_drop]⟩, hlen⟩
  · rintro ⟨hpre, rfl⟩
    obtain ⟨t, rfl⟩ := List.isPrefixOf_iff_prefix.mp hpre
    exact ⟨by simp, [], by simp, .eps⟩

/-- A fixed text; the empty text is never a token. -/
def Rule.literal {κ : Type} (text : List Char) (token : κ) : Rule κ where
  pattern := Regex.heads (Regex.chars text) .eps
  scan s := if text ≠ [] ∧ text.isPrefixOf s then some text.length else none
  action := fun _ => token
  longest := by
    intro s
    have hiff := literal_match_iff text s
    by_cases h : text ≠ [] ∧ text.isPrefixOf s
    · rw [if_pos h]
      have hn := (hiff text.length).mpr ⟨h.2, rfl⟩
      refine ⟨List.length_pos_iff.mpr h.1, hn.1, hn.2, ?_⟩
      intro m hlt hm hr
      have := ((hiff m).mp ⟨hm, hr⟩).2
      omega
    · rw [if_neg h]
      intro m hpos hm hr
      obtain ⟨hpre, rfl⟩ := (hiff m).mp ⟨hm, hr⟩
      exact h ⟨List.length_pos_iff.mp hpos, hpre⟩

/-- An opening text, singles and pairs, and the closing characters. -/
def delimitedRegex (opening : List Char) (p q r : Char → Bool) (a : Char) (close : List Char) :
    Regex :=
  Regex.heads (Regex.chars opening)
    (.seq (bodyRegex p q r) (Regex.heads (Regex.chars (a :: close)) .eps))

def scanDelimited (opening : List Char) (p q r : Char → Bool) (a : Char) (close : List Char)
    (s : List Char) : Option Nat :=
  if opening.isPrefixOf s then
    (scanClose p q r a close (s.drop opening.length)).map (· + opening.length)
  else none

theorem delimited_match_iff (opening : List Char) (p q r : Char → Bool) (a : Char)
    (close : List Char) (hap : CloseApart p q r a close) (s : List Char) (m : Nat) :
    m ≤ s.length ∧ (delimitedRegex opening p q r a close).Matches (s.take m) ↔
      scanDelimited opening p q r a close s = some m := by
  constructor
  · rintro ⟨hm, hr⟩
    obtain ⟨v, hv, hr⟩ := (Regex.matches_chars_iff _ _ _).mp hr
    obtain ⟨body, w, hb, hw, rfl⟩ := (Regex.matches_seq_iff _ _ _).mp hr
    obtain ⟨e, rfl, he⟩ := (Regex.matches_chars_iff _ _ _).mp hw
    obtain rfl := (Regex.matches_eps_iff e).mp he
    have hs : s = opening ++ (body ++ a :: close ++ s.drop m) := by
      conv_lhs => rw [← List.take_append_drop m s, hv]
      simp
    have hlen : m = body.length + close.length + 1 + opening.length := by
      have := congrArg List.length hv
      rw [List.length_take, Nat.min_eq_left hm] at this
      simp only [List.append_nil, List.length_append, List.length_cons] at this
      omega
    have hpre : opening.isPrefixOf s = true :=
      List.isPrefixOf_iff_prefix.mpr ⟨body ++ a :: close ++ s.drop m, hs.symm⟩
    have hdrop : s.drop opening.length = body ++ a :: close ++ s.drop m := by
      conv_lhs => rw [hs]
      simp
    rw [scanDelimited, if_pos hpre, hdrop, scanClose_body p q r a close hap body _ hb]
    simp [hlen]
  · intro h
    rw [scanDelimited] at h
    split_ifs at h with hpre
    obtain ⟨k, hk, rfl⟩ := Option.map_eq_some_iff.mp h
    obtain ⟨t, rfl⟩ := List.isPrefixOf_iff_prefix.mp hpre
    rw [List.drop_left] at hk
    obtain ⟨body, rest, hb, rfl, rfl⟩ := body_of_scanClose p q r a close t k hk
    have hlen : body.length + close.length + 1 + opening.length =
        (opening ++ (body ++ a :: close)).length := by
      simp only [List.length_append, List.length_cons]
      omega
    have hs : opening ++ (body ++ a :: close ++ rest) = opening ++ (body ++ a :: close) ++ rest := by
      simp
    rw [hlen, hs, List.take_left]
    refine ⟨by simp, (Regex.matches_chars_iff _ _ _).mpr ⟨_, rfl, .seq hb ?_⟩⟩
    exact (Regex.matches_chars_iff _ _ _).mpr ⟨[], by simp, .eps⟩

/-- A delimited token; its match is unique, so it is the longest one. -/
def Rule.delimited {κ : Type} (opening : List Char) (p q r : Char → Bool) (a : Char)
    (close : List Char) (hap : CloseApart p q r a close) (action : List Char → κ) : Rule κ where
  pattern := delimitedRegex opening p q r a close
  scan := scanDelimited opening p q r a close
  action := action
  longest := by
    intro s
    have hiff := delimited_match_iff opening p q r a close hap s
    cases h : scanDelimited opening p q r a close s with
    | none =>
      intro m _ hm hr
      have := (hiff m).mp ⟨hm, hr⟩
      rw [h] at this
      cases this
    | some n =>
      have hn := (hiff n).mpr h
      refine ⟨?_, hn.1, hn.2, ?_⟩
      · rw [scanDelimited] at h
        split_ifs at h
        obtain ⟨k, hk, rfl⟩ := Option.map_eq_some_iff.mp h
        obtain ⟨_, _, _, _, rfl⟩ := body_of_scanClose p q r a close _ k hk
        omega
      · intro m hlt hm hr
        have := (hiff m).mp ⟨hm, hr⟩
        rw [h] at this
        cases this
        omega

/-- The longest match over all rules; the first rule wins a tie. -/
def munch {κ : Type} (rules : List (Rule κ)) (s : List Char) : Option (Rule κ × Nat) :=
  match rules with
  | [] => none
  | rule :: rest =>
      match rule.scan s, munch rest s with
      | none, best => best
      | some n, none => some (rule, n)
      | some n, some (other, m) => if m ≤ n then some (rule, n) else some (other, m)

theorem munch_eq_none {κ : Type} {rules : List (Rule κ)} {s : List Char} :
    munch rules s = none ↔ ∀ rule ∈ rules, rule.scan s = none := by
  induction rules with
  | nil => simp [munch]
  | cons head rest ih =>
    rw [munch]
    cases hscan : head.scan s with
    | none => simp [hscan, ih]
    | some n =>
      cases munch rest s with
      | none => simp [hscan]
      | some best =>
        simp only [List.forall_mem_cons, hscan, reduceCtorEq, false_and, iff_false]
        split_ifs <;> simp

/-- The rule and the length that `munch` finds: no rule before it matches as much, and none
after it more. -/
theorem munch_eq_some {κ : Type} {rules : List (Rule κ)} {s : List Char} {rule : Rule κ} {n : Nat}
    (h : munch rules s = some (rule, n)) :
    ∃ front back, rules = front ++ rule :: back ∧ rule.scan s = some n ∧
      (∀ other ∈ front, ∀ m, other.scan s = some m → m < n) ∧
      ∀ other ∈ back, ∀ m, other.scan s = some m → m ≤ n := by
  induction rules generalizing rule n with
  | nil => simp [munch] at h
  | cons head rest ih =>
    rw [munch] at h
    cases hscan : head.scan s with
    | none =>
      rw [hscan] at h
      obtain ⟨front, back, rfl, hrule, hfront, hback⟩ := ih h
      refine ⟨head :: front, back, rfl, hrule, ?_, hback⟩
      intro other hother m hm
      rcases List.mem_cons.mp hother with rfl | hother
      · simp [hscan] at hm
      · exact hfront other hother m hm
    | some k =>
      rw [hscan] at h
      cases hrest : munch rest s with
      | none =>
        simp only [hrest, Option.some.injEq, Prod.mk.injEq] at h
        obtain ⟨rfl, rfl⟩ := h
        refine ⟨[], rest, rfl, hscan, by simp, ?_⟩
        intro other hother m hm
        simp [munch_eq_none.mp hrest other hother] at hm
      | some best =>
        obtain ⟨front, back, hsplit, hbest, hfront, hback⟩ := ih hrest
        simp only [hrest] at h
        split_ifs at h with hle
        · obtain ⟨rfl, rfl⟩ : head = rule ∧ k = n := by simpa using h
          refine ⟨[], rest, rfl, hscan, by simp, ?_⟩
          intro other hother m hm
          rw [hsplit] at hother
          rcases List.mem_append.mp hother with hother | hother
          · exact (hfront other hother m hm).le.trans hle
          · rcases List.mem_cons.mp hother with rfl | hother
            · exact (Option.some.inj (hbest.symm.trans hm)) ▸ hle
            · exact (hback other hother m hm).trans hle
        · obtain ⟨hrule, hn⟩ := Prod.mk.inj (Option.some.inj h)
          subst hrule hn
          refine ⟨head :: front, back, by rw [hsplit]; rfl, hbest, ?_, hback⟩
          intro other hother m hm
          rcases List.mem_cons.mp hother with rfl | hother
          · obtain rfl := Option.some.inj (hscan.symm.trans hm)
            exact Nat.lt_of_not_le hle
          · exact hfront other hother m hm

theorem munch_of_split {κ : Type} {front back : List (Rule κ)} {s : List Char} {rule : Rule κ}
    {n : Nat} (hrule : rule.scan s = some n)
    (hfront : ∀ other ∈ front, ∀ m, other.scan s = some m → m < n)
    (hback : ∀ other ∈ back, ∀ m, other.scan s = some m → m ≤ n) :
    munch (front ++ rule :: back) s = some (rule, n) := by
  induction front with
  | nil =>
    rw [List.nil_append, munch, hrule]
    cases hrest : munch back s with
    | none => rfl
    | some best =>
      obtain ⟨front, after, rfl, hbest, -, -⟩ := munch_eq_some hrest
      have hle := hback best.1 (by simp) best.2 hbest
      simp [hle]
  | cons head front ih =>
    have ih := ih fun other hother => hfront other (List.mem_cons_of_mem _ hother)
    rw [List.cons_append, munch, ih]
    cases hhead : head.scan s with
    | none => rfl
    | some k =>
      have hlt := hfront head List.mem_cons_self k hhead
      simp [Nat.not_le_of_lt hlt]

/-- A rule that does not match can be left out. -/
theorem munch_skip {κ : Type} (front back : List (Rule κ)) {s : List Char} {rule : Rule κ}
    (hrule : rule.scan s = none) :
    munch (front ++ rule :: back) s = munch (front ++ back) s := by
  induction front with
  | nil => simp [munch, hrule]
  | cons head front ih => simp only [List.cons_append, munch, ih]

/-- What a rule finds in a text it finds again when the text is cut behind it. -/
theorem Rule.scan_of_append {κ : Type} {rule : Rule κ} {s t : List Char} {n : Nat}
    (h : rule.scan (s ++ t) = some n) (hn : n ≤ s.length) : rule.scan s = some n := by
  have hlong := rule.longest (s ++ t)
  rw [h] at hlong
  obtain ⟨hpos, _, hmatch, hmax⟩ := hlong
  rw [List.take_append_of_le_length hn] at hmatch
  have hshort := rule.longest s
  cases hscan : rule.scan s with
  | none =>
    rw [hscan] at hshort
    exact absurd hmatch (hshort n hpos hn)
  | some k =>
    rw [hscan] at hshort
    obtain ⟨_, hk, hfound, hmost⟩ := hshort
    rcases Nat.lt_trichotomy k n with hlt | rfl | hgt
    · exact absurd hmatch (hmost n hlt hn)
    · rfl
    · have htake : (s ++ t).take k = s.take k := List.take_append_of_le_length hk
      rw [← htake] at hfound
      exact absurd hfound (hmax k hgt (by simp; omega))

/-- A longer text gives a rule at least as much. -/
theorem Rule.scan_append {κ : Type} {rule : Rule κ} {s : List Char} {k : Nat}
    (h : rule.scan s = some k) (t : List Char) :
    ∃ m, rule.scan (s ++ t) = some m ∧ k ≤ m := by
  have hshort := rule.longest s
  rw [h] at hshort
  obtain ⟨hpos, hk, hfound, _⟩ := hshort
  have htake : (s ++ t).take k = s.take k := List.take_append_of_le_length hk
  rw [← htake] at hfound
  have hlong := rule.longest (s ++ t)
  have hlength : k ≤ (s ++ t).length := by simp; omega
  cases hscan : rule.scan (s ++ t) with
  | none =>
    rw [hscan] at hlong
    exact absurd hfound (hlong k hpos hlength)
  | some m =>
    rw [hscan] at hlong
    refine ⟨m, rfl, Nat.le_of_not_lt fun hlt => ?_⟩
    exact hlong.2.2.2 k hlt hlength hfound

/-- Cutting the text behind the longest match leaves it the longest. -/
theorem munch_of_append {κ : Type} {rules : List (Rule κ)} {s t : List Char} {rule : Rule κ}
    {n : Nat} (h : munch rules (s ++ t) = some (rule, n)) (hn : n ≤ s.length) :
    munch rules s = some (rule, n) := by
  obtain ⟨front, back, rfl, hrule, hfront, hback⟩ := munch_eq_some h
  refine munch_of_split (Rule.scan_of_append hrule hn) ?_ ?_
  · intro other hother k hk
    obtain ⟨m, hm, hle⟩ := Rule.scan_append hk t
    exact hle.trans_lt (hfront other hother m hm)
  · intro other hother k hk
    obtain ⟨m, hm, hle⟩ := Rule.scan_append hk t
    exact hle.trans (hback other hother m hm)

end KaspaScript.Library
