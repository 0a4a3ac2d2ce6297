import LetPrint.Binary64.Rounding

/-!
The shortest decimal that reads back as a given magnitude. Grids of multiples of a power of ten are
tried from coarse to fine; on each grid only the two neighbours of the value are candidates, the
nearer one first and the upper one at a tie.
-/

set_option autoImplicit false

namespace LetPrint.Binary64

/-- A power of ten above twice the value: 0.30103 is close enough to the logarithm of two. -/
def coarsestExponent (magnitude : Nat) : Int :=
  (((units magnitude).log2 : Int) - 1073)*30103/100000 + 2

/-- The two neighbours of the value on the grid of multiples of ten to the `exponent`. -/
def gridNeighbours (magnitude : Nat) (exponent : Int) : List Decimal :=
  let num := units magnitude*Nat.pow 10 (-exponent).toNat
  let den := Nat.pow 10 exponent.toNat <<< 1074
  let lower : Decimal := ⟨num/den, exponent⟩
  let upper : Decimal := ⟨num/den + 1, exponent⟩
  if 2*(num%den) < den then [lower,upper] else [upper,lower]

def ReadsBack (magnitude : Nat) (d : Decimal) : Prop := roundDecimal d = magnitude

instance (magnitude : Nat) (d : Decimal) : Decidable (ReadsBack magnitude d) :=
  inferInstanceAs (Decidable (_ = _))

def onGrid? (magnitude : Nat) (exponent : Int) : Option Decimal :=
  (gridNeighbours magnitude exponent).find? fun d => ReadsBack magnitude d

def exactDecimal (magnitude : Nat) : Decimal := ⟨units magnitude*Nat.pow 5 1074, -1074⟩

/-- Twenty grids from the coarsest one on; seventeen digits always suffice. -/
def shortest (magnitude : Nat) : Decimal :=
  let e := coarsestExponent magnitude
  ((List.range 20).findSome? fun (i : Nat) => onGrid? magnitude (e - i)).getD
    (exactDecimal magnitude)

theorem readsBack_of_onGrid? {magnitude : Nat} {e : Int} {d : Decimal}
    (h : onGrid? magnitude e = some d) : ReadsBack magnitude d := by
  simpa using List.find?_some h

end LetPrint.Binary64
