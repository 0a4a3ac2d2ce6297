import LetPrint.Token

/-!
The rightmost operator of a range that stands outside every parenthesis. The range is searched from
its right end with a depth counter; an operator is found where the counter is zero, so where the
tokens to its right hold as many opening as closing parentheses. The parentheses themselves are
never found.
-/

set_option autoImplicit false

namespace LetPrint

structure Split where
  left : List Token
  operator : Token
  right : List Token
  deriving DecidableEq, Repr

namespace Split

def range (s : Split) : List Token := s.left ++ s.operator :: s.right

def cutsAt (kinds : List TokenKind) (depth : Int) (t : Token) : Bool :=
  depth == 0 && kinds.contains t.kind && !t.kind.isParenthesis

/-- The search over the tokens still to the left, the nearest first; `right` is already searched. -/
def search (kinds : List TokenKind) (depth : Int) (right : List Token) :
    List Token → Option Split
  | [] => none
  | t :: before =>
    if cutsAt kinds depth t then some ⟨before.reverse,t,right⟩
    else search kinds (depth - t.kind.nesting) (t :: right) before

def rightmost? (kinds : List TokenKind) (ts : List Token) : Option Split :=
  search kinds 0 [] ts.reverse

theorem range_of_search {kinds : List TokenKind} {depth : Int} {right before : List Token}
    {s : Split} (h : search kinds depth right before = some s) :
    s.range = before.reverse ++ right := by
  induction before generalizing depth right with
  | nil => cases h
  | cons t before ih =>
    unfold search at h
    split at h
    · cases h; simp [range]
    · simp [ih h]

theorem range_of_rightmost? {kinds : List TokenKind} {ts : List Token} {s : Split}
    (h : rightmost? kinds ts = some s) : s.range = ts := by
  simpa using range_of_search h

theorem length_of_rightmost? {kinds : List TokenKind} {ts : List Token} {s : Split}
    (h : rightmost? kinds ts = some s) : s.left.length + 1 + s.right.length = ts.length := by
  rw [← range_of_rightmost? h]; simp [range]; omega

end Split

end LetPrint
