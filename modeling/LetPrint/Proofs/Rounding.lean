import LetPrint.Binary64.Shortest
import Mathlib.Algebra.Group.Nat.Defs
import Mathlib.Tactic.Common

set_option autoImplicit false

namespace LetPrint.Binary64

theorem exists_significand (magnitude : Nat) :
    ∃ f, magnitude = stepExponent magnitude*2^52 + f ∧
      units magnitude = f*2^stepExponent magnitude ∧ f < 2^53 ∧
      (stepExponent magnitude = 0 ∨ 2^52 ≤ f) := by
  have hs : stepExponent magnitude = magnitude/2^52 - 1 := by
    rw [stepExponent,Nat.shiftRight_eq_div_pow]
  have hu : units magnitude =
      (magnitude - stepExponent magnitude*2^52)*2^stepExponent magnitude := by
    rw [units,Nat.shiftLeft_eq,Nat.shiftLeft_eq]
  refine ⟨magnitude - stepExponent magnitude*2^52,?_,hu,?_,?_⟩ <;> omega

theorem log2_mul_two_pow_sub {f k : Nat} (hf : f < 2^53) (hk : k = 0 ∨ 2^52 ≤ f) :
    (f*2^k).log2 - 52 = k := by
  rcases hk with rfl | hk
  · rw [Nat.pow_zero,Nat.mul_one]
    by_cases h0 : f = 0
    · simp [h0]
    · have hl := (Nat.log2_lt h0).2 hf
      omega
  · have hp := Nat.two_pow_pos k
    have h0 : f*2^k ≠ 0 := Nat.mul_ne_zero (by omega) (by omega)
    have hl : (f*2^k).log2 = 52+k := by
      rw [Nat.log2_eq_iff h0,Nat.pow_add,show 52+k+1 = 53+k by omega,Nat.pow_add]
      exact ⟨Nat.mul_le_mul_right _ hk,Nat.mul_lt_mul_of_pos_right hf hp⟩
    omega

theorem roundUnits_units {magnitude den : Nat} (h : magnitude < infinityMagnitude) (hd : 0 < den) :
    roundUnits (units magnitude*den) den = magnitude := by
  obtain ⟨f,hm,hu,hf,hk⟩ := exists_significand magnitude
  have hs : roundingExponent (units magnitude*den) den = stepExponent magnitude := by
    rw [roundingExponent,Nat.mul_div_cancel _ hd,hu,log2_mul_two_pow_sub hf hk]
  have hq : roundDiv (units magnitude*den) (den*2^stepExponent magnitude) = f := by
    rw [hu,Nat.mul_assoc,Nat.mul_comm _ den]
    exact roundDiv_mul_right f (Nat.mul_pos hd (Nat.two_pow_pos _))
  rw [roundUnits,hs,Nat.shiftLeft_eq,Nat.shiftLeft_eq,hq,← hm]
  omega

theorem roundDecimal_of_digits {n k : Nat} (hn : n ≠ 0) (hk : k ≤ n.log2 + 400) :
    roundDecimal ⟨n,-k⟩ = roundRatio n (10^k) := by
  have hsmall : ¬ (n = 0 ∨ -(k : Int) + n.log2 < -400) := by omega
  have hlarge : ¬ (400 : Int) ≤ -k := by omega
  have he : (-(k : Int)).toNat = 0 := by omega
  simp only [roundDecimal,if_neg hsmall,if_neg hlarge,he,Int.neg_neg,Int.toNat_natCast,
    Nat.pow_eq,Nat.pow_zero,Nat.mul_one]

theorem le_log2_mul_pow {u : Nat} (hu : u ≠ 0) (k : Nat) :
    u*5^k ≠ 0 ∧ k ≤ (u*5^k).log2 := by
  have h5 : 5^k ≠ 0 := Nat.ne_of_gt (Nat.pow_pos (by decide))
  have hle : 2^k ≤ u*5^k := calc
    2^k ≤ 5^k := Nat.pow_le_pow_left (by decide) k
    _ ≤ u*5^k := Nat.le_mul_of_pos_left _ (Nat.pos_of_ne_zero hu)
  exact ⟨Nat.mul_ne_zero hu h5,(Nat.le_log2 (Nat.mul_ne_zero hu h5)).2 hle⟩

theorem roundUnits_units_mul_pow {magnitude : Nat} (h : magnitude < infinityMagnitude) (k : Nat) :
    roundUnits ((units magnitude*5^k) <<< k) (10^k) = magnitude := by
  rw [Nat.shiftLeft_eq,Nat.mul_assoc,← Nat.mul_pow]
  exact roundUnits_units h (Nat.pow_pos (by decide))

theorem roundDecimal_exactDecimal {magnitude : Nat} (h : magnitude < infinityMagnitude) :
    roundDecimal (exactDecimal magnitude) = magnitude := by
  by_cases hu : units magnitude = 0
  · have hm := roundUnits_units h Nat.one_pos
    rw [hu] at hm
    have hz : (exactDecimal magnitude).digits = 0 := Nat.mul_eq_zero.2 (.inl hu)
    rw [roundDecimal,if_pos (.inl hz),← hm]
    decide
  · obtain ⟨hn,hl⟩ := le_log2_mul_pow hu 1074
    have hd : exactDecimal magnitude = ⟨units magnitude*5^1074,-(1074 : Nat)⟩ := by
      unfold exactDecimal
      congr
    have hr : roundRatio (units magnitude*5^1074) (10^1074) = magnitude :=
      roundUnits_units_mul_pow h 1074
    rw [hd,roundDecimal_of_digits hn (by omega),hr]

theorem roundDiv_mul_mul {c : Nat} (hc : 0 < c) (num den : Nat) :
    roundDiv (num*c) (den*c) = roundDiv num den := by
  have hr : 2*(num*c%(den*c)) = 2*(num%den)*c := by
    rw [Nat.mul_mod_mul_right,Nat.mul_assoc]
  simp only [roundDiv,hr,Nat.mul_div_mul_right num den hc,Nat.mul_lt_mul_right hc]

theorem roundUnits_mul_mul {c : Nat} (hc : 0 < c) (num den : Nat) :
    roundUnits (num*c) (den*c) = roundUnits num den := by
  have hs : ∀ s, (den*c) <<< s = den <<< s*c := by
    intro s
    rw [Nat.shiftLeft_eq,Nat.shiftLeft_eq,Nat.mul_right_comm]
  have he : roundingExponent (num*c) (den*c) = roundingExponent num den := by
    rw [roundingExponent,Nat.mul_div_mul_right num den hc,roundingExponent]
  rw [roundUnits,he,hs,roundDiv_mul_mul hc,roundUnits]

theorem roundDecimal_of_nonneg {n e : Nat} (hn : n ≠ 0) (he : e < 400) :
    roundDecimal ⟨n,e⟩ = roundRatio (n*10^e) 1 := by
  have hsmall : ¬ (n = 0 ∨ (e : Int) + n.log2 < -400) := by omega
  have hlarge : ¬ (400 : Int) ≤ e := by omega
  have hz : (-(e : Int)).toNat = 0 := by omega
  simp only [roundDecimal,if_neg hsmall,if_neg hlarge,hz,Int.toNat_natCast,Nat.pow_eq,Nat.pow_zero]

theorem roundDecimal_mul_pow {e k : Nat} (n : Nat) (he : e < 400) (hk : k ≤ 400) :
    roundDecimal ⟨n*10^(e+k),-k⟩ = roundDecimal ⟨n,e⟩ := by
  by_cases hn : n = 0
  · simp [hn,roundDecimal]
  · have hp : 0 < 10^k := Nat.pow_pos (by decide)
    have hd : n*10^(e+k) ≠ 0 := Nat.mul_ne_zero hn (Nat.ne_of_gt (Nat.pow_pos (by decide)))
    have hs : (n*10^(e+k)) <<< 1074 = (n*10^e) <<< 1074*10^k := by
      rw [Nat.shiftLeft_eq,Nat.shiftLeft_eq,Nat.pow_add,← Nat.mul_assoc,Nat.mul_right_comm]
    rw [roundDecimal_of_digits hd (by omega),roundDecimal_of_nonneg hn he,roundRatio,roundRatio,hs]
    simpa using roundUnits_mul_mul hp ((n*10^e) <<< 1074) 1

theorem roundDecimal_shortest {magnitude : Nat} (h : magnitude < infinityMagnitude) :
    roundDecimal (shortest magnitude) = magnitude := by
  simp only [shortest]
  cases hs : (List.range 20).findSome? fun (i : Nat) =>
      onGrid? magnitude (coarsestExponent magnitude - i) with
  | none => rw [Option.getD_none,roundDecimal_exactDecimal h]
  | some d =>
    obtain ⟨i,-,hd⟩ := List.exists_of_findSome?_eq_some hs
    rw [Option.getD_some]
    exact readsBack_of_onGrid? hd

end LetPrint.Binary64
