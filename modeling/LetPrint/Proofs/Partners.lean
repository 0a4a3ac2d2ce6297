import LetPrint.Proofs.SuccessiveSplits

/-!
Partners: the parentheses of a range paired off from left to right, each closing one with the last
opening one still open. A range is a group exactly if its first and its last token are partners, and
that is so exactly if one pair of parentheses stands around a nested range.
-/

set_option autoImplicit false

namespace LetPrint

def openings (ts : List Token) : Nat := ts.countP fun t => t.kind = .lparen

def closings (ts : List Token) : Nat := ts.countP fun t => t.kind = .rparen

/-- No prefix closes more parentheses than it opens, and the whole range closes all it opens. -/
def Nested (ts : List Token) : Prop :=
  (∀ before, before <+: ts → closings before ≤ openings before) ∧ openings ts = closings ts

theorem nested_iff_closed {ts : List Token} : Nested ts ↔ Closed ts := by
  have hb : ∀ ts, balance ts = openings ts - closings ts := Split.balance_eq_sub
  have ht : (∀ before, before <+: ts → closings before ≤ openings before) ↔ 0 ≤ trough ts := by
    rw [le_trough_iff]
    refine forall₂_congr fun before _ => ?_
    rw [hb]; omega
  rw [Nested,Closed,ht,hb,and_comm]
  refine and_congr_left fun _ => ?_
  omega

/-- The positions of partners in a range whose first token stands at `position`. The opening
parentheses to the left of it that are still open are given by their positions, the last first. -/
def partnersFrom (stillOpen : List Nat) (position : Nat) : List Token → List (Nat × Nat)
  | [] => []
  | t :: ts =>
    match t.kind, stillOpen with
    | .lparen, stillOpen => partnersFrom (position :: stillOpen) (position+1) ts
    | .rparen, start :: stillOpen => (start,position) :: partnersFrom stillOpen (position+1) ts
    | _, stillOpen => partnersFrom stillOpen (position+1) ts

def partners (ts : List Token) : List (Nat × Nat) := partnersFrom [] 0 ts

section Steps

variable {stillOpen : List Nat} {position start : Nat} {t : Token} (ts : List Token)

theorem partnersFrom_lparen (h : t.kind = .lparen) :
    partnersFrom stillOpen position (t :: ts) =
      partnersFrom (position :: stillOpen) (position+1) ts := by
  simp [partnersFrom,h]

theorem partnersFrom_rparen (h : t.kind = .rparen) :
    partnersFrom (start :: stillOpen) position (t :: ts) =
      (start,position) :: partnersFrom stillOpen (position+1) ts := by
  simp [partnersFrom,h]

theorem partnersFrom_of_not_isParenthesis (h : t.kind.isParenthesis = false) :
    partnersFrom stillOpen position (t :: ts) = partnersFrom stillOpen (position+1) ts := by
  cases hk : t.kind <;> simp_all [partnersFrom,TokenKind.isParenthesis]

end Steps

theorem TokenKind.cases_of_parenthesis (k : TokenKind) :
    k = lparen ∨ k = rparen ∨ k.isParenthesis = false := by cases k <;> decide

theorem start_of_mem_partnersFrom {stillOpen : List Nat} {position start stop : Nat}
    {ts : List Token} (h : (start,stop) ∈ partnersFrom stillOpen position ts) :
    start ∈ stillOpen ∨ position ≤ start := by
  fun_induction partnersFrom stillOpen position ts with
  | case1 => cases h
  | case2 position t ts _ stillOpen ih =>
    rcases ih h with h | h
    · rcases List.mem_cons.1 h with rfl | h
      · exact .inr (Nat.le_refl _)
      · exact .inl h
    · exact .inr (by omega)
  | case3 position t ts _ first stillOpen ih =>
    rcases List.mem_cons.1 h with h | h
    · cases h
      exact .inl (by simp)
    · rcases ih h with h | h
      · exact .inl (by simp [h])
      · exact .inr (by omega)
  | case4 stillOpen position t ts _ _ ih =>
    rcases ih h with h | h
    · exact .inl h
    · exact .inr (by omega)

/-- An open parenthesis finds its partner at the end of a range if the range closes all that was
opened after it, and nothing that was opened before. -/
theorem mem_partnersFrom_concat_iff {above below : List Nat} {start position : Nat}
    {mid : List Token} {r : Token} (ha : start ∉ above) (hb : start ∉ below)
    (hs : start < position) :
    (start,position + mid.length) ∈
        partnersFrom (above ++ start :: below) position (mid ++ [r]) ↔
      r.kind = .rparen ∧ above.length + balance mid = 0 ∧ 0 ≤ above.length + trough mid := by
  induction mid generalizing above position with
  | nil =>
    rcases r.kind.cases_of_parenthesis with hr | hr | hr
    · simp [partnersFrom_lparen _ hr,partnersFrom,hr]
    · cases above with
      | nil => simp [partnersFrom_rparen _ hr,hr,balance,trough]
      | cons a above =>
        have hne : start ≠ a := fun h => ha (by simp [h])
        simp [partnersFrom_rparen _ hr,partnersFrom,hr,balance,hne]
        omega
    · have hn : r.kind ≠ .rparen := by
        intro h
        simp [h,TokenKind.isParenthesis] at hr
      simp [partnersFrom_of_not_isParenthesis _ hr,partnersFrom,hn]
  | cons t mid ih =>
    have hlen : position + (t :: mid).length = position + 1 + mid.length := by
      simp only [List.length_cons]; omega
    have htr := trough_nonpos mid
    rw [List.cons_append,hlen]
    rcases t.kind.cases_of_parenthesis with ht | ht | ht
    · have hpos : start ∉ position :: above := by
        simp only [List.mem_cons,not_or]
        exact ⟨by omega,ha⟩
      have ih := ih hpos (show start < position+1 by omega)
      rw [partnersFrom_lparen _ ht,← List.cons_append,ih]
      simp only [balance,trough,ht,TokenKind.nesting,List.length_cons]
      refine and_congr_right fun _ => ?_
      omega
    · cases above with
      | nil =>
        rw [List.nil_append,partnersFrom_rparen _ ht,List.mem_cons]
        simp only [balance,trough,ht,TokenKind.nesting,List.length_nil]
        refine ⟨?_,fun h => by omega⟩
        rintro (h | h)
        · simp only [Prod.mk.injEq] at h; omega
        · rcases start_of_mem_partnersFrom h with h | h
          · exact absurd h hb
          · omega
      | cons a above =>
        have hne : start ≠ a := fun h => ha (by simp [h])
        have hna : start ∉ above := fun h => ha (by simp [h])
        have ih := ih hna (show start < position+1 by omega)
        rw [List.cons_append,partnersFrom_rparen _ ht,List.mem_cons,ih]
        simp only [balance,trough,ht,TokenKind.nesting,List.length_cons,Prod.mk.injEq,hne,
          false_and,false_or]
        refine and_congr_right fun _ => ?_
        omega
    · have hn := t.kind.nesting_of_not_isParenthesis ht
      have ih := ih ha (show start < position+1 by omega)
      rw [partnersFrom_of_not_isParenthesis _ ht,ih]
      simp only [balance,trough,hn]
      refine and_congr_right fun _ => ?_
      omega

theorem mem_partners_enclosed_iff {l r : Token} {mid : List Token} :
    (0,mid.length+1) ∈ partners (l :: (mid ++ [r])) ↔
      l.kind = .lparen ∧ r.kind = .rparen ∧ Closed mid := by
  rw [partners]
  by_cases hl : l.kind = .lparen
  · have hm := @mem_partnersFrom_concat_iff [] [] 0 1 mid r (by simp) (by simp) (by omega)
    rw [partnersFrom_lparen _ hl]
    simpa [hl,Closed,Nat.add_comm] using hm
  · have hn : partnersFrom [] 0 (l :: (mid ++ [r])) = partnersFrom [] 1 (mid ++ [r]) := by
      rcases l.kind.cases_of_parenthesis with h | h | h
      · exact absurd h hl
      · simp [partnersFrom,h]
      · exact partnersFrom_of_not_isParenthesis _ h
    rw [hn]
    refine ⟨?_,fun h => absurd h.1 hl⟩
    intro h
    rcases start_of_mem_partnersFrom h with h | h
    · cases h
    · omega

/-- A range is a group exactly if it is an opening parenthesis, a nested range and a closing one.
That is so exactly if its last token is the partner of its first. -/
theorem isGroup_iff_partners (ts : List Token) :
    (isGroup ts = true ↔ ∃ l mid r, ts = [l] ++ mid ++ [r] ∧ l.kind = .lparen ∧
      r.kind = .rparen ∧ Nested mid) ∧
    (isGroup ts = true ↔ (0,ts.length - 1) ∈ partners ts) := by
  refine ⟨?_,?_⟩
  · refine ⟨?_,?_⟩
    · intro h
      obtain ⟨l,r,hts,hl,hr,hc⟩ := exists_enclosed_of_isGroup h
      exact ⟨l,interior ts,r,by simpa using hts,hl,hr,nested_iff_closed.2 hc⟩
    · rintro ⟨l,mid,r,rfl,hl,hr,hn⟩
      simpa using isGroup_enclosed_iff.2 ⟨hl,hr,nested_iff_closed.1 hn⟩
  · match ts with
    | [] => decide
    | [t] =>
      have hg : isGroup [t] ≠ true := fun h => absurd (two_le_length_of_isGroup h) (by simp)
      cases hk : t.kind <;> simp [hg,partners,partnersFrom,hk]
    | l :: u :: us =>
      obtain ⟨mid,r,hus⟩ : ∃ mid r, u :: us = mid ++ [r] :=
        ⟨_,_,(List.dropLast_concat_getLast (by simp)).symm⟩
      rw [hus,isGroup_enclosed_iff,← mem_partners_enclosed_iff]
      simp

/-- Both pairs of `(a)+(b)` are partners, but not its first and its last token. -/
example : partners [⟨.lparen,"("⟩,⟨.ident,"a"⟩,⟨.rparen,")"⟩,⟨.plus,"+"⟩,⟨.lparen,"("⟩,
    ⟨.ident,"b"⟩,⟨.rparen,")"⟩] = [(0,2),(4,6)] := by decide

end LetPrint
