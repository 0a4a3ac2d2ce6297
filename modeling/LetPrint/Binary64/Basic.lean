/-!
Binary64 numbers by their bits. A number is a sign and a magnitude, the lower 63 bits read as a
natural number; finite magnitudes are ordered as the values they stand for, infinity follows the
largest of them, and every larger magnitude is no number at all.
-/

set_option autoImplicit false

namespace LetPrint

structure Binary64 where
  negative : Bool
  magnitude : Nat
  magnitude_lt : magnitude < 1 <<< 63
  deriving DecidableEq, Repr

namespace Binary64

/-- The magnitude of infinity: the largest exponent field over an empty fraction. -/
def infinityMagnitude : Nat := 2047 <<< 52

/-- The least magnitude whose fraction has its top bit set above the infinite exponent. -/
def nanMagnitude : Nat := infinityMagnitude + 1 <<< 51

theorem infinityMagnitude_lt : infinityMagnitude < 1 <<< 63 := by decide

def zero (negative : Bool) : Binary64 := ⟨negative, 0, by decide⟩

def infinity (negative : Bool) : Binary64 := ⟨negative, infinityMagnitude, infinityMagnitude_lt⟩

def nan (negative : Bool) : Binary64 := ⟨negative, nanMagnitude, by decide⟩

def isFinite (x : Binary64) : Bool := x.magnitude < infinityMagnitude

def isNaN (x : Binary64) : Bool := infinityMagnitude < x.magnitude

def isZero (x : Binary64) : Bool := x.magnitude == 0

/-- The step between neighbours of a magnitude is two to this power, in units of 2^-1074. -/
def stepExponent (magnitude : Nat) : Nat := magnitude >>> 52 - 1

/-- The value of a finite magnitude in units of 2^-1074. -/
def units (magnitude : Nat) : Nat :=
  (magnitude - stepExponent magnitude <<< 52) <<< stepExponent magnitude

/-- Equality of values: a NaN equals nothing, and the two zeros are equal. -/
def equals (x y : Binary64) : Bool :=
  !x.isNaN && !y.isNaN && x.magnitude == y.magnitude && (x.negative == y.negative || x.isZero)

def toBits (x : Binary64) : Nat := (if x.negative then 1 <<< 63 else 0) + x.magnitude

def ofBits (bits : Nat) : Binary64 :=
  ⟨bits >>> 63 % 2 == 1, bits % 1 <<< 63, Nat.mod_lt _ (by decide)⟩

end Binary64

end LetPrint
