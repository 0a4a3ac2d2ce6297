import LetPrint.Text.Blank
import LetPrint.Token

/-!
Lexemes: the pieces a text is cut into from left to right. A lexeme takes as many characters as its
class allows; words, numerals and marks become tokens, blanks and comments are passed over. A cut
text is the concatenation of its lexemes and of what is left where no lexeme starts.
-/

set_option autoImplicit false

namespace LetPrint

inductive LexemeClass where
  | word
  | numeral
  | blank
  | comment
  | mark (kind : TokenKind)
  deriving DecidableEq, Repr

structure Lexeme where
  cls : LexemeClass
  text : List Char
  deriving DecidableEq, Repr

def isWordStart (c : Char) : Bool := c.isAlpha || c == '_'

def isWordChar (c : Char) : Bool := isWordStart c || c.isDigit

/-- A point with the digits after it, or nothing if no digit follows a point. -/
def splitFraction : List Char → List Char × List Char
  | '.' :: cs =>
    if cs.takeWhile Char.isDigit = [] then ([],'.' :: cs)
    else ('.' :: cs.takeWhile Char.isDigit,cs.dropWhile Char.isDigit)
  | cs => ([],cs)

theorem splitFraction_append (cs : List Char) :
    (splitFraction cs).1 ++ (splitFraction cs).2 = cs := by
  unfold splitFraction; split
  · split <;> simp
  · rfl

def splitNumeral (cs : List Char) : List Char × List Char :=
  (cs.takeWhile Char.isDigit ++ (splitFraction (cs.dropWhile Char.isDigit)).1,
    (splitFraction (cs.dropWhile Char.isDigit)).2)

theorem splitNumeral_append (cs : List Char) : (splitNumeral cs).1 ++ (splitNumeral cs).2 = cs := by
  simp [splitNumeral,splitFraction_append]

namespace Lexeme

def next? : List Char → Option (Lexeme × List Char)
  | [] => none
  | c :: cs =>
    if isWordStart c then
      some (⟨.word,c :: cs.takeWhile isWordChar⟩,cs.dropWhile isWordChar)
    else if c.isDigit then
      some (⟨.numeral,(splitNumeral (c :: cs)).1⟩,(splitNumeral (c :: cs)).2)
    else if Text.isBlank c then
      some (⟨.blank,c :: cs.takeWhile Text.isBlank⟩,cs.dropWhile Text.isBlank)
    else if c = '/' ∧ cs.head? = some '/' then
      some (⟨.comment,c :: cs.takeWhile (· ≠ '\n')⟩,cs.dropWhile (· ≠ '\n'))
    else
      (TokenKind.ofMark? c).map fun kind => (⟨.mark kind,[c]⟩,cs)

theorem text_append_of_next? {cs rest : List Char} {l : Lexeme} (h : next? cs = some (l,rest)) :
    l.text ++ rest = cs := by
  unfold next? at h
  split at h
  · cases h
  · rename_i c cs
    split at h
    · cases h; simp
    · split at h
      · cases h; exact splitNumeral_append _
      · split at h
        · cases h; simp
        · split at h
          · cases h; simp
          · obtain ⟨kind,-,hk⟩ := Option.map_eq_some_iff.1 h
            cases hk; rfl

theorem text_ne_nil_of_next? {cs rest : List Char} {l : Lexeme} (h : next? cs = some (l,rest)) :
    l.text ≠ [] := by
  unfold next? at h
  split at h
  · cases h
  · rename_i c cs
    split at h
    · cases h; simp
    · split at h
      · rename_i hd
        cases h
        simp [splitNumeral,hd]
      · split at h
        · cases h; simp
        · split at h
          · cases h; simp
          · obtain ⟨kind,-,hk⟩ := Option.map_eq_some_iff.1 h
            cases hk; simp

theorem length_rest_lt {cs rest : List Char} {l : Lexeme} (h : next? cs = some (l,rest)) :
    rest.length < cs.length := by
  have ha := text_append_of_next? h
  have hn := List.length_pos_iff.2 (text_ne_nil_of_next? h)
  rw [← ha,List.length_append]; omega

/-- The lexemes of the text in order, and the text that is left where none starts. -/
def scan (cs : List Char) : List Lexeme × List Char :=
  match h : next? cs with
  | none => ([],cs)
  | some (l,rest) =>
    have := length_rest_lt h
    let more := scan rest
    (l :: more.1,more.2)
termination_by cs.length

theorem scan_of_none {cs : List Char} (h : next? cs = none) : scan cs = ([],cs) := by
  rw [scan]; split <;> simp_all

theorem scan_of_some {cs rest : List Char} {l : Lexeme} (h : next? cs = some (l,rest)) :
    scan cs = (l :: (scan rest).1,(scan rest).2) := by
  rw [scan]; split <;> simp_all

theorem flatMap_text_append_scan (cs : List Char) :
    (scan cs).1.flatMap text ++ (scan cs).2 = cs := by
  fun_induction scan cs with
  | case1 => rfl
  | case2 cs l rest h _ more ih => simp [more,ih,text_append_of_next? h]

def token? (l : Lexeme) : Option Token :=
  match l.cls with
  | .word => some ⟨.ofWord (String.ofList l.text),String.ofList l.text⟩
  | .numeral => some ⟨.number,String.ofList l.text⟩
  | .mark kind => some ⟨kind,String.ofList l.text⟩
  | .blank | .comment => none

end Lexeme

end LetPrint
