import LetPrint.Text.GraphemeExtend
import LetPrint.Text.Unprintable

set_option autoImplicit false

namespace LetPrint.Text

def isPrintable (c : Char) : Bool :=
  (0x20 ≤ c.toNat && c.toNat < 0x7F) ||
    !(unprintableRanges.contains c || graphemeExtendRanges.contains c)

theorem isPrintable_of_ascii {c : Char} (hl : 0x20 ≤ c.toNat) (hh : c.toNat < 0x7F) :
    isPrintable c = true := by simp [isPrintable,hl,hh]

end LetPrint.Text
