import LetPrint.Binary64.Basic

set_option autoImplicit false

namespace LetPrint

structure Decimal where
  digits : Nat
  exponent : Int
  deriving DecidableEq, Repr

namespace Binary64

/-- The quotient rounded to the nearest natural number, a half to the even neighbour. -/
def roundDiv (num den : Nat) : Nat :=
  if 2*(num%den) < den then num/den
  else if den < 2*(num%den) then num/den + 1
  else num/den + num/den%2

theorem roundDiv_near {num den : Nat} (h : 0 < den) :
    2*num ≤ 2*(den*roundDiv num den) + den ∧ 2*(den*roundDiv num den) ≤ 2*num + den := by
  have hd := Nat.div_add_mod num den
  have hr := Nat.mod_lt num h
  have hq : den*(num/den + 1) = den*(num/den) + den := Nat.mul_succ _ _
  unfold roundDiv; split
  · omega
  · split
    · omega
    · rcases Nat.mod_two_eq_zero_or_one (num/den) with he | he <;> rw [he]
      · rw [Nat.add_zero]; omega
      · omega

@[simp] theorem roundDiv_mul_right {den : Nat} (q : Nat) (h : 0 < den) :
    roundDiv (q*den) den = q := by
  simp [roundDiv,Nat.mul_div_cancel _ h,h]

/-- The power of two that leaves a quotient of 53 bits, or none for the small values. -/
def roundingExponent (num den : Nat) : Nat := (num/den).log2 - 52

/-- The magnitude nearest to a number of units of 2^-1074 given as a ratio. -/
def roundUnits (num den : Nat) : Nat :=
  let s := roundingExponent num den
  min infinityMagnitude (s <<< 52 + roundDiv num (den <<< s))

def roundRatio (num den : Nat) : Nat := roundUnits (num <<< 1074) den

/-- The magnitude nearest to a decimal. Far out of range the answer is known from the size alone. -/
def roundDecimal (d : Decimal) : Nat :=
  if d.digits = 0 ∨ d.exponent + d.digits.log2 < -400 then 0
  else if 400 ≤ d.exponent then infinityMagnitude
  else roundRatio (d.digits*Nat.pow 10 d.exponent.toNat) (Nat.pow 10 (-d.exponent).toNat)

theorem roundUnits_le (num den : Nat) : roundUnits num den ≤ infinityMagnitude :=
  Nat.min_le_left _ _

theorem roundDecimal_le (d : Decimal) : roundDecimal d ≤ infinityMagnitude := by
  unfold roundDecimal; split
  · exact Nat.zero_le _
  · split
    · exact Nat.le_refl _
    · exact roundUnits_le _ _

def ofDecimal (negative : Bool) (d : Decimal) : Binary64 :=
  ⟨negative, roundDecimal d, Nat.lt_of_le_of_lt (roundDecimal_le d) infinityMagnitude_lt⟩

end Binary64

end LetPrint
