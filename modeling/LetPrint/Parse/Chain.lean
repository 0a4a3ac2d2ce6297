import LetPrint.Event
import LetPrint.Fault
import LetPrint.Range.Split

/-!
Chains: a range cut at all its top-level operators of one tier, into a first operand and links of an
operator and the operand to its right. The operators are found from right to left, each in what the
one before left over. The tier is the loosest that has an operator at top level.
-/

set_option autoImplicit false

namespace LetPrint

structure Link where
  operator : BinaryOperator
  operand : List Token
  deriving DecidableEq, Repr

def Link.total : List Link → Nat
  | [] => 0
  | link :: links => link.operand.length + 1 + total links

structure Chain where
  tier : Tier
  first : List Token
  links : List Link
  deriving DecidableEq, Repr

namespace Chain

/-- Cuts the operators of `tier` off the right end of `rest`, in front of the links already cut. -/
def peel (tier : Tier) (rest : List Token) (links : List Link) : Except ExpressionFault Chain :=
  match h : Split.rightmost? tier.operators rest with
  | none => .ok ⟨tier,rest,links⟩
  | some s =>
    have := Split.length_of_rightmost? h
    match BinaryOperator.ofKind? s.operator.kind with
    | none => .error .notAnOperator
    | some op => peel tier s.left (⟨op,s.right⟩ :: links)
termination_by rest.length

def ofTiers (ts : List Token) : List Tier → Except ExpressionFault Chain
  | [] => .error .noTopLevelOperator
  | tier :: tiers =>
    match peel tier ts [] with
    | .error fault => .error fault
    | .ok chain => if chain.links = [] then ofTiers ts tiers else .ok chain

def ofRange (ts : List Token) : Except ExpressionFault Chain := ofTiers ts Tier.all

/-- The number of tokens in front of each operator, from left to right. -/
def positions (start : Nat) : List Link → List (BinaryOperator × Nat)
  | [] => []
  | link :: links => (link.operator,start) :: positions (start+1+link.operand.length) links

/-- What was found, in the order it was found: from right to left. -/
def found (chain : Chain) : List Event :=
  (positions chain.first.length chain.links).reverse.map fun p => .operatorFound p.1.kind p.2

theorem length_positions (start : Nat) (links : List Link) :
    (positions start links).length = links.length := by
  induction links generalizing start <;> simp_all [positions]

theorem total_of_peel {tier : Tier} {rest : List Token} {links : List Link} {chain : Chain}
    (h : peel tier rest links = .ok chain) :
    chain.first.length + Link.total chain.links = rest.length + Link.total links := by
  fun_induction peel tier rest links with
  | case1 => cases h; rfl
  | case2 => cases h
  | case3 rest links s hs hl op hop ih =>
    have ht := ih h
    simp only [Link.total] at ht
    omega

theorem total_of_ofTiers {ts : List Token} {tiers : List Tier} {chain : Chain}
    (h : ofTiers ts tiers = .ok chain) :
    chain.first.length + Link.total chain.links = ts.length ∧ chain.links ≠ [] := by
  fun_induction ofTiers ts tiers with
  | case1 => cases h
  | case2 => cases h
  | case3 tier tiers c hp hc ih => exact ih h
  | case4 tier tiers c hp hc =>
    cases h
    exact ⟨by simpa [Link.total] using total_of_peel hp,hc⟩

theorem total_of_ofRange {ts : List Token} {chain : Chain} (h : ofRange ts = .ok chain) :
    chain.first.length + Link.total chain.links = ts.length := (total_of_ofTiers h).1

theorem links_ne_nil_of_ofRange {ts : List Token} {chain : Chain} (h : ofRange ts = .ok chain) :
    chain.links ≠ [] := (total_of_ofTiers h).2

theorem shorter_of_ofRange {ts : List Token} {chain : Chain} (h : ofRange ts = .ok chain) :
    chain.first.length < ts.length ∧ Link.total chain.links ≤ ts.length := by
  have ht := total_of_ofRange h
  have hn := links_ne_nil_of_ofRange h
  cases hl : chain.links with
  | nil => exact absurd hl hn
  | cons link links => simp only [hl,Link.total] at ht ⊢; omega

end Chain

end LetPrint
