import LetPrint.Proofs.TopLevel

/-!
All top-level tokens of a range, found one after the other. Each split leaves a left side, and the
search starts again there with its counter at zero. What is cut away holds as many opening as
closing parentheses, so the tokens found on the left are those the whole range has at top level.
-/

set_option autoImplicit false

namespace LetPrint.Split

variable {kinds : List TokenKind} {ts : List Token} {s : Split}

theorem balance_eq_sub (ts : List Token) :
    balance ts = (ts.countP fun t => t.kind = .lparen) - ts.countP fun t => t.kind = .rparen := by
  induction ts with
  | nil => rfl
  | cons t ts ih =>
    cases hk : t.kind <;> simp [balance,ih,hk,TokenKind.nesting] <;> omega

theorem isTopLevel_iff :
    s.IsTopLevel kinds ↔ s.operator.kind ∈ kinds ∧ s.operator.kind ≠ .lparen ∧
      s.operator.kind ≠ .rparen ∧ (s.right.countP fun t => t.kind = .lparen) =
        s.right.countP fun t => t.kind = .rparen := by
  have hp : s.operator.kind.isParenthesis = false ↔
      s.operator.kind ≠ .lparen ∧ s.operator.kind ≠ .rparen := by
    cases s.operator.kind <;> decide
  have hb := balance_eq_sub s.right
  constructor
  · intro h
    obtain ⟨hl,hr⟩ := hp.1 h.not_parenthesis
    have h0 := h.balance_right
    exact ⟨h.kind_mem,hl,hr,by omega⟩
  · rintro ⟨hk,hl,hr,hc⟩
    exact ⟨hk,hp.2 ⟨hl,hr⟩,by omega⟩

/-- The rightmost split of a range, then that of its left side, and so on until there is none. -/
def successive (kinds : List TokenKind) (ts : List Token) : List Split :=
  match h : rightmost? kinds ts with
  | none => []
  | some s =>
    have := length_of_rightmost? h
    s :: successive kinds s.left
termination_by ts.length

theorem successive_of_none (h : rightmost? kinds ts = none) : successive kinds ts = [] := by
  rw [successive]; split <;> simp_all

theorem successive_of_some (h : rightmost? kinds ts = some s) :
    successive kinds ts = s :: successive kinds s.left := by
  rw [successive]; split <;> simp_all

def StandsAfter (kinds : List TokenKind) (ts left : List Token) (t : Token) : Prop :=
  ∃ right, (⟨left,t,right⟩ : Split).range = ts ∧ (⟨left,t,right⟩ : Split).IsTopLevel kinds

/-- To the left of a top-level token the whole range has the same tokens at top level as the left
side alone. -/
theorem IsTopLevel.widen_iff (h : s.IsTopLevel kinds) {left right : List Token} {t : Token} :
    (⟨left,t,right ++ s.operator :: s.right⟩ : Split).IsTopLevel kinds ↔
      (⟨left,t,right⟩ : Split).IsTopLevel kinds := by
  have hn := s.operator.kind.nesting_of_not_isParenthesis h.not_parenthesis
  have hb : balance (right ++ s.operator :: s.right) = balance right := by
    simp only [balance_append,balance,hn,h.balance_right]; omega
  constructor
  · intro h
    exact ⟨h.kind_mem,h.not_parenthesis,hb ▸ h.balance_right⟩
  · intro h
    exact ⟨h.kind_mem,h.not_parenthesis,hb.trans h.balance_right⟩

theorem standsAfter_range_iff (h : s.IsTopLevel kinds) (hr : ¬ HasTopLevel kinds s.right)
    {left : List Token} {t : Token} :
    StandsAfter kinds s.range left t ↔
      left = s.left ∧ t = s.operator ∨ StandsAfter kinds s.left left t := by
  constructor
  · rintro ⟨right,hs,ht⟩
    rcases List.append_eq_append_iff.1 hs with ⟨between,hl,hb⟩ | ⟨between,rfl,hb⟩
    · cases between with
      | nil => simp_all
      | cons u between =>
        obtain ⟨rfl,rfl⟩ := List.cons.inj hb
        exact .inr ⟨between,hl.symm,h.widen_iff.1 ht⟩
    · cases between with
      | nil => simp_all
      | cons u between =>
        -- a token after the rightmost split would be at top level in its right side
        obtain ⟨-,hb⟩ := List.cons.inj hb
        exact absurd ⟨⟨between,t,right⟩,hb.symm,⟨ht.1,ht.2,ht.3⟩⟩ hr
  · rintro (⟨rfl,rfl⟩ | ⟨right,hs,ht⟩)
    · exact ⟨s.right,rfl,h⟩
    · refine ⟨right ++ s.operator :: s.right,?_,h.widen_iff.2 ht⟩
      simp only [range] at hs ⊢
      rw [← hs,List.append_assoc,List.cons_append]

theorem StandsAfter.length_lt {left : List Token} {t : Token} (h : StandsAfter kinds ts left t) :
    left.length < ts.length := by
  obtain ⟨right,rfl,-⟩ := h
  simp [range]

theorem not_standsAfter (h : rightmost? kinds ts = none) (left : List Token) (t : Token) :
    ¬ StandsAfter kinds ts left t := by
  rintro ⟨right,hs,ht⟩
  exact rightmost?_eq_none_iff.1 h ⟨_,hs,ht⟩

theorem mem_successive_iff {left : List Token} {t : Token} :
    (∃ right, (⟨left,t,right⟩ : Split) ∈ successive kinds ts) ↔ StandsAfter kinds ts left t := by
  fun_induction successive kinds ts with
  | case1 ts h => simp [not_standsAfter h]
  | case2 ts s h _ ih =>
    obtain ⟨rfl,hs,hr⟩ := rightmost?_eq_some_iff.1 h
    rw [standsAfter_range_iff hs hr,← ih]
    simp only [List.mem_cons,exists_or]
    refine or_congr_left ?_
    constructor
    · rintro ⟨right,rfl⟩
      exact ⟨rfl,rfl⟩
    · rintro ⟨rfl,rfl⟩
      exact ⟨s.right,rfl⟩

theorem kind_mem_of_mem_successive (h : s ∈ successive kinds ts) : s.operator.kind ∈ kinds := by
  obtain ⟨right,-,ht⟩ := mem_successive_iff.1 ⟨s.right,h⟩
  exact ht.kind_mem

theorem pairwise_successive (kinds : List TokenKind) (ts : List Token) :
    (successive kinds ts).Pairwise fun s s' => s'.left.length < s.left.length := by
  fun_induction successive kinds ts with
  | case1 ts h => exact .nil
  | case2 ts s h _ ih =>
    refine List.pairwise_cons.2 ⟨?_,ih⟩
    intro s' hs'
    exact (mem_successive_iff.1 ⟨s'.right,hs'⟩).length_lt

/-- The search finds the top-level token of the kinds with no other to its right, and nothing if
there is none. Repeated on what is left it finds every token at top level in the whole range, each
once and from right to left. -/
theorem rightmost?_exact (kinds : List TokenKind) (ts : List Token) :
    (∀ s : Split, s.IsTopLevel kinds ↔ s.operator.kind ∈ kinds ∧ s.operator.kind ≠ .lparen ∧
      s.operator.kind ≠ .rparen ∧ (s.right.countP fun t => t.kind = .lparen) =
        s.right.countP fun t => t.kind = .rparen) ∧
    (∀ left t right, rightmost? kinds ts = some ⟨left,t,right⟩ ↔
      ts = left ++ [t] ++ right ∧ (⟨left,t,right⟩ : Split).IsTopLevel kinds ∧
        ¬ HasTopLevel kinds right) ∧
    (rightmost? kinds ts = none ↔ ¬ HasTopLevel kinds ts) ∧
    (successive kinds ts).Pairwise (fun s s' => s'.left.length < s.left.length) ∧
    ∀ left t, (∃ right, (⟨left,t,right⟩ : Split) ∈ successive kinds ts) ↔
      StandsAfter kinds ts left t := by
  refine ⟨fun _ => isTopLevel_iff,?_,rightmost?_eq_none_iff,pairwise_successive kinds ts,
    fun _ _ => mem_successive_iff⟩
  intro left t right
  rw [rightmost?_eq_some_iff,eq_comm]
  simp only [range,List.append_assoc,List.singleton_append]

end LetPrint.Split
