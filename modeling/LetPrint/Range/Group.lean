import LetPrint.Token

set_option autoImplicit false

namespace LetPrint

/-- Whether the depth, standing at `depth`, is zero after the last token and at no token before. -/
def closesLast (depth : Int) : List Token → Bool
  | [] => depth == 0
  | [t] => depth + t.kind.nesting == 0
  | t :: ts => depth + t.kind.nesting != 0 && closesLast (depth + t.kind.nesting) ts

def isGroup (ts : List Token) : Bool :=
  (ts.head?.any fun t => t.kind == .lparen) && (ts.getLast?.any fun t => t.kind == .rparen) &&
    closesLast 0 ts

def interior (ts : List Token) : List Token := (ts.drop 1).dropLast

theorem length_interior (ts : List Token) : (interior ts).length = ts.length - 2 := by
  simp [interior]; omega

theorem two_le_length_of_isGroup {ts : List Token} (h : isGroup ts = true) : 2 ≤ ts.length := by
  match ts with
  | [] => simp [isGroup] at h
  | [t] => cases hk : t.kind <;> simp [isGroup,hk] at h
  | _ :: _ :: _ => simp

theorem length_interior_lt {ts : List Token} (h : isGroup ts = true) :
    (interior ts).length < ts.length := by
  have h2 := two_le_length_of_isGroup h
  rw [length_interior]; omega

end LetPrint
