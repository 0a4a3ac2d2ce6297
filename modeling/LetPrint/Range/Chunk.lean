import LetPrint.Token

/-!
Cutting a token range at a delimiter. The pieces before and between the delimiters may be empty, the
rest after the last cut is a piece only if something is left; a bound on the number of pieces leaves
the later delimiters in the rest.
-/

set_option autoImplicit false

namespace LetPrint

def lastChunk (ts : List Token) : List (List Token) := if ts = [] then [] else [ts]

@[simp] theorem flatten_lastChunk (ts : List Token) : (lastChunk ts).flatten = ts := by
  unfold lastChunk; split <;> simp_all

def cutAt (delimiter : TokenKind) (cuts : Option Nat) (ts : List Token) : List (List Token) :=
  if cuts = some 0 then lastChunk ts
  else match h : ts.dropWhile fun t => t.kind ≠ delimiter with
    | [] => lastChunk ts
    | _ :: rest =>
      (ts.takeWhile fun t => t.kind ≠ delimiter) :: cutAt delimiter (cuts.map fun n => n-1) rest
termination_by ts.length
decreasing_by
  have hl := (List.dropWhile_sublist (l := ts) fun t => t.kind ≠ delimiter).length_le
  rw [h,List.length_cons] at hl; omega

/-- The chunks of a range, at most `limit` of them; a limit of nought is a limit of one. -/
def chunks (delimiter : TokenKind) (limit : Option Nat) (ts : List Token) : List (List Token) :=
  cutAt delimiter (limit.map fun n => n-1) ts

theorem cutAt_of_no_cuts (delimiter : TokenKind) (ts : List Token) :
    cutAt delimiter (some 0) ts = lastChunk ts := by rw [cutAt]; simp

theorem cutAt_of_free {delimiter : TokenKind} {cuts : Option Nat} {ts : List Token}
    (h : ∀ t ∈ ts, t.kind ≠ delimiter) : cutAt delimiter cuts ts = lastChunk ts := by
  have hd : (ts.dropWhile fun t => t.kind ≠ delimiter) = [] := by
    rw [← List.append_nil ts,List.dropWhile_append_of_pos (by simpa using h)]; rfl
  rw [cutAt]; split
  · rfl
  · split
    · rfl
    · rename_i h'; rw [hd] at h'; cases h'

theorem cutAt_cons_delimiter {delimiter : TokenKind} {cuts : Option Nat} {t : Token}
    {before after : List Token} (hc : cuts ≠ some 0) (hb : ∀ t ∈ before, t.kind ≠ delimiter)
    (ht : t.kind = delimiter) :
    cutAt delimiter cuts (before ++ t :: after) =
      before :: cutAt delimiter (cuts.map fun n => n-1) after := by
  have hd : ((before ++ t :: after).dropWhile fun t => t.kind ≠ delimiter) = t :: after := by
    rw [List.dropWhile_append_of_pos (by simpa using hb)]; simp [ht]
  have hk : ((before ++ t :: after).takeWhile fun t => t.kind ≠ delimiter) = before := by
    rw [List.takeWhile_append_of_pos (by simpa using hb)]; simp [ht]
  rw [cutAt,if_neg hc]
  split
  · rename_i h; rw [hd] at h; cases h
  · rename_i rest h
    rw [hd] at h; cases h
    rw [hk]

end LetPrint
