import LetPrint.CommandLine.Outcome
import LetPrint.Proofs.Trace

set_option autoImplicit false

namespace LetPrint.CommandLine

section Log

variable (events : List Event) (verbosity : Nat)

end Log

theorem tokenLines_eq_mapIdx (index : Nat) (ts : List Token) :
    tokenLines index ts = ts.mapIdx fun i t => tokenLine (index+i) t := by
  induction ts generalizing index with
  | nil => rfl
  | cons t ts ih =>
    rw [tokenLines,List.mapIdx_cons,ih]
    simp only [Nat.add_zero,Nat.add_assoc,Nat.add_comm 1]

theorem isOneLine_pushn (n : Nat) : isOneLine ("".pushn ' ' n) = true := by
  unfold String.pushn
  induction n with
  | zero => decide
  | succ n ih => simpa [Nat.repeat,isOneLine] using ih

theorem isOneLine_tokenLine (index : Nat) {t : Token} (h : t.IsSpelt) :
    isOneLine (tokenLine index t) = true := by
  have hc : isOneLine (column index) = true := by
    simp [column,isOneLine_pushn]
  have ht : isOneLine (if t.isLiteral then t.text else "") = true := by
    split
    · exact h.isOneLine_text
    · decide
  simp [tokenLine,Token.display,hc,ht]
  decide

theorem splitOn_ofLines {lines : List String} (h : ∀ line ∈ lines, isOneLine line = true) :
    (ofLines lines).toList.splitOn '\n' = lines.map String.toList ++ [[]] := by
  have ht : (ofLines lines).toList = ['\n'].intercalate (lines.map String.toList ++ [[]]) := by
    rw [ofLines,String.toList_join]
    clear h
    induction lines with
    | nil => rfl
    | cons line lines ih =>
      rw [List.map_cons,List.flatMap_cons,ih,List.map_cons,List.cons_append,
        List.intercalate_cons_of_ne_nil (by simp)]
      simp
  have hn : ∀ line ∈ lines.map String.toList ++ [[]], '\n' ∉ line := by
    simpa [isOneLine,or_imp,forall_and] using h
  rw [ht,List.splitOn_intercalate '\n' hn (by simp)]

theorem eq_of_ofLines_eq {lines lines' : List String} (h : ∀ line ∈ lines, isOneLine line = true)
    (h' : ∀ line ∈ lines', isOneLine line = true) (he : ofLines lines = ofLines lines') :
    lines = lines' := by
  have hs := splitOn_ofLines h
  rw [he,splitOn_ofLines h',List.append_cancel_right_eq] at hs
  exact ((List.map_inj_right fun _ _ => String.toList_inj.1).1 hs).symm

end LetPrint.CommandLine
