import LetPrint.Proofs.Rounding

set_option autoImplicit false

namespace LetPrint.Binary64

section Rounding

variable {num den q : Nat}

theorem roundDiv_of_tie (h : 2*num + den = 2*(den*q)) (hd : 0 < den) (hq : q%2 = 0) :
    roundDiv num den = q := by
  cases q with
  | zero => omega
  | succ p =>
    rw [Nat.mul_succ] at h
    have hn : num = den*p + den/2 := by omega
    have hdiv : num/den = p := by
      rw [hn,Nat.mul_add_div hd,Nat.div_eq_of_lt (by omega),Nat.add_zero]
    have hmod : num%den = den/2 := by
      rw [hn,Nat.mul_add_mod,Nat.mod_eq_of_lt (by omega)]
    rw [roundDiv,hdiv,hmod]
    split
    · omega
    · split <;> omega

/-- An even number is reached from half a unit below it on. -/
theorem le_roundDiv_iff (hd : 0 < den) (hq : q%2 = 0) :
    q ≤ roundDiv num den ↔ 2*(den*q) ≤ 2*num + den := by
  obtain ⟨hbelow,habove⟩ := @roundDiv_near num den hd
  refine ⟨?_,?_⟩
  · intro h
    have hm := Nat.mul_le_mul_left den h
    omega
  · intro h
    by_contra hlt
    have hm : den*(roundDiv num den + 1) ≤ den*q := Nat.mul_le_mul_left den (by omega)
    rw [Nat.mul_succ] at hm
    exact hlt (Nat.le_of_eq (roundDiv_of_tie (by omega) hd hq).symm)

theorem roundingExponent_spec (num : Nat) (hd : 0 < den) :
    num < den*2^roundingExponent num den*2^53 ∧
      (roundingExponent num den = 0 ∨ den*2^roundingExponent num den*2^52 ≤ num) := by
  obtain ⟨s,hs⟩ : ∃ s, s = roundingExponent num den := ⟨_,rfl⟩
  rw [← hs]
  rw [roundingExponent] at hs
  rw [Nat.mul_assoc,Nat.mul_assoc,← Nat.pow_add,← Nat.pow_add,Nat.mul_comm den,Nat.mul_comm den]
  refine ⟨?_,?_⟩
  · rw [← Nat.div_lt_iff_lt_mul hd]
    exact Nat.lt_of_lt_of_le Nat.lt_log2_self (Nat.pow_le_pow_right (by decide) (by omega))
  · by_cases h0 : s = 0
    · exact .inl h0
    · right
      have hq : num/den ≠ 0 := by
        intro hq
        rw [hq] at hs
        exact h0 hs
      rw [← Nat.le_div_iff_mul_le hd,show s+52 = (num/den).log2 by omega]
      exact Nat.log2_self_le hq

theorem roundUnits_eq_infinity_iff (hd : 0 < den) :
    roundUnits num den = infinityMagnitude ↔ (2^54-1)*(den*2^2044) ≤ num := by
  obtain ⟨hlt,hle⟩ := roundingExponent_spec num hd
  have hmin : roundUnits num den = infinityMagnitude ↔
      2047*2^52 ≤ roundingExponent num den*2^52 +
        roundDiv num (den*2^roundingExponent num den) := by
    rw [roundUnits,Nat.shiftLeft_eq,Nat.shiftLeft_eq,infinityMagnitude,Nat.shiftLeft_eq]
    omega
  rw [hmin]
  generalize roundingExponent num den = s at *
  obtain ⟨k,hk⟩ : ∃ k, k = 2044 := ⟨_,rfl⟩
  rw [← hk]
  have hs : 0 < den*2^s := Nat.mul_pos hd (Nat.two_pow_pos s)
  have hp : 0 < den*2^k := Nat.mul_pos hd (Nat.two_pow_pos k)
  rcases Nat.lt_trichotomy s (k+1) with h | h | h
  · -- the quotient is below 2^53, and to round it up is not enough
    have hm : den*2^s ≤ den*2^k :=
      Nat.mul_le_mul_left den (Nat.pow_le_pow_right (by decide) (by omega))
    have hr := @le_roundDiv_iff num (den*2^s) (3*2^52) hs (by decide)
    omega
  · have hm : den*2^s = 2*(den*2^k) := by
      rw [h,Nat.pow_succ,← Nat.mul_assoc,Nat.mul_comm]
    have hr := @le_roundDiv_iff num (den*2^s) (2^53) hs (by decide)
    omega
  · have hm : 4*(den*2^k) ≤ den*2^s := calc
      4*(den*2^k) = den*2^(k+2) := by rw [Nat.pow_add,← Nat.mul_assoc den,Nat.mul_comm 4]
      _ ≤ den*2^s := Nat.mul_le_mul_left den (Nat.pow_le_pow_right (by decide) (by omega))
    have hr := @le_roundDiv_iff num (den*2^s) (2^52) hs (by decide)
    omega

end Rounding

/-- Two to the 1024 less half a step: half way to it from the largest finite number. -/
def overflowThreshold : Nat := (2^54-1)*2^970

theorem overflowThreshold_pos : 0 < overflowThreshold := by
  rw [overflowThreshold]
  generalize 970 = k
  exact Nat.mul_pos (by decide) (Nat.two_pow_pos k)

theorem roundRatio_eq_infinity_iff {num den : Nat} (hd : 0 < den) :
    roundRatio num den = infinityMagnitude ↔ overflowThreshold*den ≤ num := by
  have hm : ∀ a b c : Nat, a*(den*(b*c)) = a*b*den*c := fun a b c => by ac_rfl
  have hs : (2^54-1)*(den*2^2044) = overflowThreshold*den*2^1074 := by
    rw [overflowThreshold,show 2044 = 970+1074 from rfl,pow_add,hm]
  rw [roundRatio,roundUnits_eq_infinity_iff hd,hs,Nat.shiftLeft_eq,
    Nat.mul_le_mul_right_iff (Nat.two_pow_pos 1074)]

theorem roundDecimal_eq_infinity_iff (n k : Nat) :
    roundDecimal ⟨n,-k⟩ = infinityMagnitude ↔ overflowThreshold*10^k ≤ n := by
  have hinf : 0 ≠ infinityMagnitude := by decide
  have hk : 0 < 10^k := Nat.pow_pos (by decide)
  by_cases hn : n ≠ 0 ∧ k ≤ n.log2 + 400
  · rw [roundDecimal_of_digits hn.1 hn.2]
    exact roundRatio_eq_infinity_iff hk
  · have hz : roundDecimal ⟨n,-k⟩ = 0 := by
      rw [roundDecimal,if_pos]
      simp only
      omega
    have hlt : n < 10^k := by
      by_cases h0 : n = 0
      · omega
      · calc
          n < 2^(n.log2+1) := Nat.lt_log2_self
          _ ≤ 2^k := Nat.pow_le_pow_right (by decide) (by omega)
          _ ≤ 10^k := Nat.pow_le_pow_left (by decide) k
    have hle : 10^k ≤ overflowThreshold*10^k := Nat.le_mul_of_pos_left _ overflowThreshold_pos
    rw [hz]
    exact ⟨fun h => absurd h hinf,fun h => by omega⟩

end LetPrint.Binary64
