import Mathlib.Algebra.Order.Field.Power
import Mathlib.Algebra.Order.Field.Rat
import Mathlib.Tactic.FieldSimp
import Mathlib.Tactic.Linarith
import Mathlib.Tactic.NormNum
import Mathlib.Tactic.Positivity
import Mathlib.Tactic.Ring
import Transpiler.Number.Binary64

/-!
# How far rounding goes

Rounding a quotient to a double can carry it up to the next power of two, but only if it is within half a unit
of it (`magnitudeOfRatio_lt`). So the whole part of a product that stays below is below that power, too
(`truncate?_scale`).
-/

namespace Transpiler.Binary64

open Nat

lemma roundHalfEven_le (num den : Nat) : roundHalfEven num den ≤ num / den + 1 := by
  unfold roundHalfEven
  dsimp only
  split_ifs <;> omega

lemma roundHalfEven_lt {num den bound : Nat} (h : 2 * num + den < 2 * bound * den) : roundHalfEven num den < bound := by
  have hsplit := div_add_mod num den
  have hden : 0 < den := by
    rcases Nat.eq_zero_or_pos den with rfl | hpos
    · simp at h
    · exact hpos
  have hlt := mod_lt num hden
  by_cases hq : num / den + 1 < bound
  · exact (roundHalfEven_le num den).trans_lt hq
  have hquotient : num / den < bound := by
    rw [div_lt_iff_lt_mul hden]
    linarith
  have heq : bound = num / den + 1 := by omega
  have hhalf : 2 * (num % den) < den := by
    rw [heq] at h
    nlinarith
  unfold roundHalfEven
  dsimp only
  rwa [if_pos hhalf]

lemma ratio_bounds {num den : Nat} (hnum : num ≠ 0) (hden : den ≠ 0) :
    (2 : ℚ) ^ ((num.log2 : ℤ) - den.log2 - 1) < num / den ∧ (num : ℚ) / den < 2 ^ ((num.log2 : ℤ) - den.log2 + 1) := by
  have hd : (0 : ℚ) < den := by exact_mod_cast pos_of_ne_zero hden
  have hn₁ : (2 : ℚ) ^ num.log2 ≤ num := by exact_mod_cast log2_self_le hnum
  have hn₂ : (num : ℚ) < 2 ^ num.log2 * 2 := by exact_mod_cast pow_succ 2 num.log2 ▸ lt_log2_self
  have hd₁ : (2 : ℚ) ^ den.log2 ≤ den := by exact_mod_cast log2_self_le hden
  have hd₂ : (den : ℚ) < 2 ^ den.log2 * 2 := by exact_mod_cast pow_succ 2 den.log2 ▸ lt_log2_self
  have hp : (0 : ℚ) < 2 ^ den.log2 := by positivity
  rw [zpow_sub₀ two_ne_zero, zpow_sub₀ two_ne_zero, zpow_add₀ two_ne_zero, zpow_sub₀ two_ne_zero, zpow_natCast,
    zpow_natCast, zpow_one, lt_div_iff₀ hd, div_lt_iff₀ hd]
  constructor
  · field_simp
    nlinarith
  · field_simp
    nlinarith

/-! ## The unit in the last place -/

section Unit

variable {num den : Nat}

/-- A quotient counted in units of `2 ^ e`, as a numerator and a denominator. -/
def inUnits (num den : Nat) (e : Int) : Nat × Nat :=
  if 0 ≤ e then (num, den * Nat.pow 2 e.toNat) else (num * Nat.pow 2 (-e).toNat, den)

/-- The exponent of the last place of a quotient. -/
def lastPlace (num den : Nat) : Int :=
  let guess : Int := (num.log2 : Int) - (den.log2 : Int) - 52
  max (-1074) (if (inUnits num den guess).1 / (inUnits num den guess).2 < Nat.pow 2 52 then guess - 1 else guess)

lemma magnitudeOfRatio_le (hnum : num ≠ 0) (hden : den ≠ 0) : magnitudeOfRatio num den ≤
    (lastPlace num den + 1074).toNat * 2 ^ 52
      + roundHalfEven (inUnits num den (lastPlace num den)).1 (inUnits num den (lastPlace num den)).2 := by
  rw [magnitudeOfRatio, if_neg (not_or.2 ⟨hnum, hden⟩)]
  exact Nat.min_le_left _ _

lemma inUnits_pos (hden : den ≠ 0) (e : Int) : 0 < (inUnits num den e).2 := by
  unfold inUnits
  split_ifs
  · exact Nat.mul_pos (Nat.pos_of_ne_zero hden) (Nat.pow_pos two_pos)
  · exact pos_of_ne_zero hden

lemma inUnits_ratio (num den : Nat) (e : Int) :
    ((inUnits num den e).1 : ℚ) / (inUnits num den e).2 = num / den / 2 ^ e := by
  unfold inUnits
  split_ifs with he
  · obtain ⟨n, rfl⟩ := Int.eq_ofNat_of_zero_le he
    simp [div_div]
  · obtain ⟨n, hn⟩ := Int.eq_ofNat_of_zero_le (show 0 ≤ -e by omega)
    rw [show e = -(n : ℤ) by omega]
    simp [zpow_neg, mul_div_right_comm]

lemma inUnits_lt_iff (hden : den ≠ 0) {e : Int} {c : Nat} :
    (inUnits num den e).1 < c * (inUnits num den e).2 ↔ (num : ℚ) / den < c * 2 ^ e := by
  have hpos : (0 : ℚ) < (inUnits num den e).2 := by exact_mod_cast inUnits_pos hden e
  have hunit : (0 : ℚ) < 2 ^ e := by positivity
  rw [← div_lt_iff₀ hunit, ← inUnits_ratio, div_lt_iff₀ hpos]
  exact_mod_cast Iff.rfl

/-- Counted in units of its last place, a quotient has at most 53 bits, and it has just as many unless it is
subnormal. -/
lemma lastPlace_spec (hnum : num ≠ 0) (hden : den ≠ 0) : ∃ c : Int, lastPlace num den = max (-1074) c ∧
    (2 ^ 52 : ℕ) * (2 : ℚ) ^ c ≤ num / den ∧ (num : ℚ) / den < (2 ^ 53 : ℕ) * 2 ^ c := by
  obtain ⟨hlower, hupper⟩ := ratio_bounds hnum hden
  have hfloor : ∀ {e : Int}, (inUnits num den e).1 / (inUnits num den e).2 < Nat.pow 2 52 ↔
      (num : ℚ) / den < (2 ^ 52 : ℕ) * 2 ^ e := fun {e} => by
    rw [div_lt_iff_lt_mul (inUnits_pos hden e)]
    exact inUnits_lt_iff hden
  have hpower : ∀ (n : ℕ) (e : Int), ((2 ^ n : ℕ) : ℚ) * 2 ^ e = 2 ^ (n + e) := fun n e => by
    rw [zpow_add₀ two_ne_zero, zpow_natCast, cast_pow, cast_ofNat]
  unfold lastPlace
  dsimp only
  simp only [hpower] at hfloor ⊢
  split_ifs with hsmall
  · refine ⟨_, rfl, le_of_eq_of_le ?_ hlower.le, lt_of_lt_of_eq (hfloor.1 hsmall) ?_⟩
    · congr 1
      push_cast
      ring
    · congr 1
      push_cast
      ring
  · refine ⟨_, rfl, not_lt.1 fun hlt => hsmall (hfloor.2 hlt), lt_of_lt_of_eq hupper ?_⟩
    congr 1
    push_cast
    ring

end Unit

/-- A quotient more than half a unit below a power of two does not round up to it. -/
lemma magnitudeOfRatio_lt {num den k : Nat} (h : 2 * num + den * 2 ^ k < 2 ^ 54 * (den * 2 ^ k)) :
    magnitudeOfRatio num den < (k + 1076) * 2 ^ 52 := by
  by_cases hzero : num = 0 ∨ den = 0
  · rw [magnitudeOfRatio, if_pos hzero]
    positivity
  obtain ⟨hnum, hden⟩ := not_or.1 hzero
  refine (magnitudeOfRatio_le hnum hden).trans_lt ?_
  obtain ⟨c, hc, hatLeast, hbelow⟩ := lastPlace_spec hnum hden
  have hd : (0 : ℚ) < den := by exact_mod_cast pos_of_ne_zero hden
  have hk : c ≤ k := by
    have hlt : (num : ℚ) / den < (2 ^ 53 : ℕ) * 2 ^ (k : ℤ) := by
      rw [div_lt_iff₀ hd, zpow_natCast]
      exact_mod_cast (show num < 2 ^ 53 * 2 ^ k * den by linarith)
    have hlt := hatLeast.trans_lt hlt
    have hpowers : (2 : ℚ) ^ c < 2 ^ ((k : ℤ) + 1) := by
      rw [zpow_add_one₀ two_ne_zero]
      push_cast at hlt
      linarith
    exact Int.lt_add_one_iff.1 ((zpow_lt_zpow_iff_right₀ one_lt_two).1 hpowers)
  have hrounded : (inUnits num den (lastPlace num den)).1 < 2 ^ 53 * (inUnits num den (lastPlace num den)).2 := by
    rw [inUnits_lt_iff hden, hc]
    refine hbelow.trans_le (mul_le_mul_of_nonneg_left ?_ (cast_nonneg _))
    exact zpow_le_zpow_right₀ one_le_two (le_max_right _ _)
  have hle := roundHalfEven_le (inUnits num den (lastPlace num den)).1 (inUnits num den (lastPlace num den)).2
  rw [← div_lt_iff_lt_mul (inUnits_pos hden _)] at hrounded
  rcases (show lastPlace num den ≤ k by omega).lt_or_eq with hlt | heq
  · omega
  · -- the last place is the one below the power of two, so the quotient stays below that, rounded or not
    have hinUnits : inUnits num den k = (num, den * 2 ^ k) := by simp [inUnits]
    have hround : roundHalfEven num (den * 2 ^ k) < 2 ^ 53 := roundHalfEven_lt (by omega)
    rw [heq, hinUnits]
    simp only
    omega

/-! ## Whole parts -/

lemma exists_truncate? {x : Binary64} {negative : Bool} {m : Nat} {q : Int}
    (h : x.value = .finite negative m q) : ∃ n, x.truncate? = some n := by
  rw [truncate?, h]
  exact ⟨_, rfl⟩

lemma truncate?_ofMagnitude {magnitude k : Nat} (hk : k ≤ 971) (h : magnitude < (k + 1076) * 2 ^ 52) :
    ∃ n : Nat, (ofMagnitude false magnitude).truncate? = some (n : Int) ∧ n < 2 ^ (k + 53) := by
  have hsmall : magnitude < UInt64.size :=
    calc magnitude < (k + 1076) * 2 ^ 52 := h
      _ ≤ 2047 * 2 ^ 52 := mul_le_mul_right _ (by omega)
      _ ≤ UInt64.size := by decide
  have hbits : (ofMagnitude false magnitude).bits.toNat = magnitude := by
    simp only [ofMagnitude, Bool.false_eq_true, if_false, zero_add, toUInt64_eq]
    exact UInt64.toNat_ofNat_of_lt' hsmall
  have hsign : (ofMagnitude false magnitude).isNegative = false := by
    simp only [isNegative, hbits, pow_eq, beq_eq_false_iff_ne]
    omega
  have hexponent : (ofMagnitude false magnitude).biasedExponent = magnitude / 2 ^ 52 := by
    simp only [biasedExponent, hbits, pow_eq]
    omega
  have hfraction : (ofMagnitude false magnitude).fraction < 2 ^ 52 := mod_lt _ (by decide)
  have hbiased : magnitude / 2 ^ 52 < k + 1076 := by omega
  have hpow : 2 ^ 53 ≤ 2 ^ (k + 53) := Nat.pow_le_pow_right two_pos (by omega)
  have hfinite : ∃ m q, (ofMagnitude false magnitude).value = .finite false m q ∧ m < 2 ^ 53 ∧ q ≤ k := by
    rw [value, hexponent, hsign, if_neg (by omega)]
    split_ifs
    · exact ⟨_, _, rfl, by omega, by omega⟩
    · exact ⟨_, _, rfl, by simp only [pow_eq]; omega, by omega⟩
  obtain ⟨m, q, hvalue, hm, hq⟩ := hfinite
  rw [truncate?, hvalue]
  simp only [Bool.false_eq_true, if_false]
  split_ifs with hnonneg
  · refine ⟨_, rfl, ?_⟩
    calc m * Nat.pow 2 q.toNat < 2 ^ 53 * 2 ^ q.toNat := Nat.mul_lt_mul_of_pos_right hm (Nat.pow_pos two_pos)
      _ = 2 ^ (q.toNat + 53) := by rw [← pow_add, add_comm]
      _ ≤ 2 ^ (k + 53) := Nat.pow_le_pow_right two_pos (by omega)
  · exact ⟨_, rfl, (Nat.div_le_self _ _).trans_lt (by omega)⟩

/-- The whole part of a product that is more than half a unit below a power of two is below that power. -/
lemma truncate?_scale {x : Binary64} {whole : Int} (hsign : x.isNegative = false)
    (hwhole : x.truncate? = some whole) {factor bound k : Nat} (hfactor : 0 < factor) (hlt : whole < bound)
    (hk : k ≤ 971) (hbound : 2 * (bound * factor) + 2 ^ k ≤ 2 ^ 54 * 2 ^ k) :
    ∃ n : Nat, (x.scale factor).truncate? = some (n : Int) ∧ n < 2 ^ (k + 53) := by
  -- the product is a quotient, and the bound on the whole part bounds its numerator
  have hratio : ∀ num den, num < bound * den →
      ∃ n : Nat, (ofRatio false (num * factor) den).truncate? = some (n : Int) ∧ n < 2 ^ (k + 53) := by
    intro num den hnum
    refine truncate?_ofMagnitude hk (magnitudeOfRatio_lt ?_)
    have hproduct : num * factor < bound * den * factor := mul_lt_mul_of_pos_right hnum hfactor
    have hscaled := mul_le_mul_right den hbound
    nlinarith
  have hfinite : ∃ m q, x.value = .finite false m q := by
    rw [truncate?] at hwhole
    split at hwhole
    · next negative m q hvalue => exact ⟨m, q, by rw [hvalue, ← isNegative_of_finite hvalue, hsign]⟩
    · cases hwhole
  obtain ⟨m, q, hvalue⟩ := hfinite
  rw [truncate?, hvalue] at hwhole
  obtain rfl := Option.some.inj hwhole
  rw [scale, hvalue]
  simp only [Bool.false_eq_true, if_false] at hlt ⊢
  unfold ofScaled
  split_ifs at hlt ⊢ with hq
  · rw [mul_right_comm]
    exact hratio _ 1 (by omega)
  · have hpos : 0 < Nat.pow 2 (-q).toNat := Nat.pow_pos two_pos
    exact hratio m _ ((div_lt_iff_lt_mul hpos).1 (by exact_mod_cast hlt))

end Transpiler.Binary64
