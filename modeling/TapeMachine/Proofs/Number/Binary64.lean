import Mathlib
import TapeMachine.Number.Shortest

/-!
# Integers as floating-point numbers

Which integers are finite numbers, and how their texts differ from the digits of the integer.  The largest
finite number is `(2 ^ 53 - 1) * 2 ^ 971`; an integer beyond it is still rounded to it, up to half a unit in
its last place.
-/

namespace TapeMachine.Number

/-! ## Overflow -/

/-- Where a quotient is rounded up to a power of two: at half a unit below it. -/
theorem roundDiv_eq_iff {n u : Nat} (hu : 0 < u) (hn : n < 2 ^ 53 * (2 * u)) :
    roundDiv n (2 * u) = 2 ^ 53 ↔ (2 ^ 54 - 1) * u ≤ n := by
  have hdiv : 2 * u * (n / (2 * u)) + n % (2 * u) = n := Nat.div_add_mod n (2 * u)
  have hmod : n % (2 * u) < 2 * u := Nat.mod_lt _ (by omega)
  have hq : n / (2 * u) < 2 ^ 53 := Nat.div_lt_of_lt_mul (by rwa [Nat.mul_comm] at hn)
  unfold roundDiv
  dsimp only
  generalize n / (2 * u) = q at *
  generalize n % (2 * u) = r at *
  by_cases htop : q = 2 ^ 53 - 1
  · subst htop
    split
    · omega
    split
    · omega
    · omega
  · have hle : 2 * u * q ≤ 2 * u * (2 ^ 53 - 2) := Nat.mul_le_mul_left _ (by omega)
    have hleft : ¬ (2 ^ 54 - 1) * u ≤ n := by omega
    refine iff_of_false ?_ hleft
    split
    · omega
    split
    · omega
    · omega

theorem floorLog2_one {n : Nat} (hn : n ≠ 0) : Binary64.floorLog2 n 1 = n.log2 := by
  have hone : ((Nat.log2 1 : Nat) : Int) = 0 := by decide
  have hneg : (-(n.log2 : Int)).toNat = 0 := by omega
  unfold Binary64.floorLog2
  dsimp only
  rw [hone, Int.sub_zero, Int.toNat_natCast, hneg, if_pos]
  change 1 * 2 ^ n.log2 ≤ n * 2 ^ 0
  rw [Nat.one_mul, Nat.pow_zero, Nat.mul_one]
  exact Nat.log2_self_le hn

theorem exists_ofRatio_one {n : Nat} (hn : 2 ^ 53 ≤ n) : ∃ k, 2 ^ (k + 53) ≤ n ∧ n < 2 ^ (k + 54) ∧
    ((Binary64.ofRatio false n 1).isFinite = true ↔
      if roundDiv n (2 * 2 ^ k) = 2 ^ 53 then k < 970 else k < 971) := by
  have hne : n ≠ 0 := by omega
  have hlog : 53 ≤ n.log2 := (Nat.le_log2 hne).2 hn
  obtain ⟨k, hk⟩ := Nat.exists_eq_add_of_le' hlog
  refine ⟨k, hk ▸ Nat.log2_self_le hne, ?_, ?_⟩
  · have hlt := Nat.lt_log2_self (n := n)
    rwa [hk] at hlt
  · have he : max (Binary64.floorLog2 n 1 - 52) (-1074) = ((k + 1 : Nat) : Int) := by
      rw [floorLog2_one hne, hk]
      omega
    have hround : roundScaled n 1 ((k + 1 : Nat) : Int) = roundDiv n (2 * 2 ^ k) := by
      have hneg : (-((k + 1 : Nat) : Int)).toNat = 0 := by omega
      have hpow : Nat.pow 2 (k + 1) = 2 * 2 ^ k := Nat.pow_succ'
      rw [roundScaled, hneg, Int.toNat_natCast, Nat.one_mul, hpow]
      exact congrArg (roundDiv · _) (Nat.mul_one n)
    unfold Binary64.ofRatio
    rw [if_neg (by simpa using hne)]
    dsimp only
    rw [he, hround]
    by_cases htop : roundDiv n (2 * 2 ^ k) = 2 ^ 53
    · have hbeq : (roundDiv n (2 * 2 ^ k) == Nat.pow 2 53) = true := beq_iff_eq.2 htop
      rw [hbeq, if_pos htop, if_pos rfl]
      dsimp only
      split <;> simp [Binary64.isFinite] <;> omega
    · have hbeq : (roundDiv n (2 * 2 ^ k) == Nat.pow 2 53) = false := beq_eq_false_iff_ne.2 htop
      rw [hbeq, if_neg htop, if_neg Bool.false_ne_true]
      dsimp only
      split <;> simp [Binary64.isFinite] <;> omega

/-- An integer of more than 53 binary digits is a finite number if it is closer to the largest one than to
the next power of two. -/
theorem isFinite_ofRatio_one_iff {n : Nat} (hn : 2 ^ 53 ≤ n) :
    (Binary64.ofRatio false n 1).isFinite = true ↔ n < (2 ^ 54 - 1) * 2 ^ 970 := by
  obtain ⟨k, hle, hlt, hfinite⟩ := exists_ofRatio_one hn
  have hpow : 2 ^ (k + 54) = 2 ^ 53 * (2 * 2 ^ k) := by
    rw [show k + 54 = 53 + (k + 1) by omega, Nat.pow_add 2 53, Nat.pow_succ' (n := k)]
  have htop : roundDiv n (2 * 2 ^ k) = 2 ^ 53 ↔ (2 ^ 54 - 1) * 2 ^ k ≤ n := by
    refine roundDiv_eq_iff (Nat.two_pow_pos k) ?_
    exact hpow ▸ hlt
  rw [Nat.pow_add] at hle hlt
  simp only [hfinite, htop]
  generalize hlast : 970 = last
  rcases Nat.lt_trichotomy k last with hk | rfl | hk
  · have hpow : 2 ^ (k + 1) ≤ 2 ^ last := Nat.pow_le_pow_right (Nat.succ_pos 1) hk
    rw [Nat.pow_succ] at hpow
    refine iff_of_true ?_ (by omega)
    split <;> omega
  · split <;> omega
  · have hpow : 2 ^ (last + 1) ≤ 2 ^ k := Nat.pow_le_pow_right (Nat.succ_pos 1) hk
    rw [Nat.pow_succ] at hpow
    refine iff_of_false ?_ (by omega)
    split <;> omega

/-- The least integer that is taken for an infinite number. -/
def overflow : Nat := (2 ^ 54 - 1) * 2 ^ 970

theorem isFinite_ofDecimal_iff {n : Nat} (hn : 2 ^ 53 ≤ n) :
    (Binary64.ofDecimal false n 0).isFinite = true ↔ n < overflow := by
  have hne : n ≠ 0 := by omega
  have hratio : Binary64.ofRatio false (n * Nat.pow 10 (0 : Int).toNat) (Nat.pow 10 (-0 : Int).toNat) =
      Binary64.ofRatio false n 1 := congrArg (Binary64.ofRatio false · 1) (Nat.mul_one n)
  have hbound : overflow < 10 ^ 310 := by decide +kernel
  unfold Binary64.ofDecimal
  dsimp only
  rw [if_neg, hratio]
  split
  · rename_i hlong
    refine iff_of_false (fun h => by cases h) fun hlt => ?_
    have hlength := (Nat.length_toDigits_le_iff (by decide) (by decide)).2 (Nat.lt_trans hlt hbound)
    omega
  · exact isFinite_ofRatio_one_iff hn
  · simp [hne]

/-! ## Texts -/

theorem exists_point_or_exponent (x : Decimal) : ∃ c ∈ x.written, c = '.' ∨ c = 'e' := by
  unfold Decimal.written
  dsimp only
  split
  · exact ⟨'.', by simp, .inl rfl⟩
  split
  · exact ⟨'.', by simp, .inl rfl⟩
  split
  · exact ⟨'.', by simp, .inl rfl⟩
  · exact ⟨'e', by simp, .inr rfl⟩

theorem exists_point_or_exponent_text {x : Binary64} (h : x.isFinite = true) :
    ∃ c ∈ x.text.toList, c = '.' ∨ c = 'e' := by
  cases x with
  | nan => cases h
  | infinite negative => cases h
  | finite negative m e =>
    cases m with
    | zero =>
      refine ⟨'.', ?_, .inl rfl⟩
      rw [Binary64.text, String.toList_append]
      exact List.mem_append_right _ (by decide)
    | succ m =>
      obtain ⟨c, hc, hmark⟩ := exists_point_or_exponent (shortest (m + 1) e)
      refine ⟨c, ?_, hmark⟩
      rw [Binary64.text, String.toList_append, String.toList_ofList]
      · exact List.mem_append_right _ hc
      · exact Nat.succ_ne_zero m

theorem text_ne_toString {x : Binary64} (h : x.isFinite = true) (n : Nat) : x.text ≠ toString n := by
  intro htext
  obtain ⟨c, hc, hmark⟩ := exists_point_or_exponent_text h
  rw [htext, Nat.toString_eq_ofList_toDigits, String.toList_ofList] at hc
  have hdigit := Nat.isDigit_of_mem_toDigits (by decide) (by decide) hc
  rcases hmark with rfl | rfl <;> revert hdigit <;> decide

end TapeMachine.Number
