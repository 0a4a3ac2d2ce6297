import LetPrint.Proofs.Nesting
import LetPrint.Range.Split

/-!
Top-level tokens: those with as many opening as closing parentheses to their right. The search of a
range finds the last of them, and a group has none.
-/

set_option autoImplicit false

namespace LetPrint

/-- The range is cut at a token of one of the kinds, no parenthesis, that stands at top level. -/
structure Split.IsTopLevel (kinds : List TokenKind) (s : Split) : Prop where
  kind_mem : s.operator.kind ∈ kinds
  not_parenthesis : s.operator.kind.isParenthesis = false
  balance_right : balance s.right = 0

def HasTopLevel (kinds : List TokenKind) (ts : List Token) : Prop :=
  ∃ s : Split, s.range = ts ∧ s.IsTopLevel kinds

variable {kinds kinds' : List TokenKind} {ts : List Token} {s s' : Split}

theorem not_hasTopLevel_nil (kinds : List TokenKind) : ¬ HasTopLevel kinds [] := by
  intro h
  obtain ⟨s,hs,-⟩ := h
  simp [Split.range] at hs

theorem hasTopLevel_cons {t : Token} :
    HasTopLevel kinds (t :: ts) ↔
      (⟨[],t,ts⟩ : Split).IsTopLevel kinds ∨ HasTopLevel kinds ts := by
  refine ⟨?_,?_⟩
  · intro h
    obtain ⟨⟨left,u,right⟩,hs,h⟩ := h
    cases left with
    | nil =>
      simp only [Split.range,List.nil_append,List.cons.injEq] at hs
      obtain ⟨rfl,rfl⟩ := hs
      exact .inl h
    | cons v left =>
      simp only [Split.range,List.cons_append,List.cons.injEq] at hs
      exact .inr ⟨⟨left,u,right⟩,hs.2,⟨h.1,h.2,h.3⟩⟩
  · intro h
    rcases h with h | ⟨⟨left,u,right⟩,rfl,h⟩
    · exact ⟨_,rfl,h⟩
    · exact ⟨⟨t :: left,u,right⟩,rfl,⟨h.1,h.2,h.3⟩⟩

theorem hasTopLevel_append {as bs : List Token} (hb : balance bs = 0) :
    HasTopLevel kinds (as ++ bs) ↔ HasTopLevel kinds as ∨ HasTopLevel kinds bs := by
  induction as with
  | nil => simp [not_hasTopLevel_nil]
  | cons t as ih =>
    have ht : (⟨[],t,as ++ bs⟩ : Split).IsTopLevel kinds ↔
        (⟨[],t,as⟩ : Split).IsTopLevel kinds :=
      ⟨fun h => ⟨h.1,h.2,by simpa [hb] using h.3⟩,fun h => ⟨h.1,h.2,by simpa [hb] using h.3⟩⟩
    rw [List.cons_append,hasTopLevel_cons,hasTopLevel_cons,ih,ht,or_assoc]

/-- A group has no top-level token: every suffix of its interior opens no more than it closes. -/
theorem not_hasTopLevel_of_isGroup (h : isGroup ts = true) : ¬ HasTopLevel kinds ts := by
  obtain ⟨l,r,hts,hl,hr,hc⟩ := exists_enclosed_of_isGroup h
  intro htop
  obtain ⟨⟨left,t,right⟩,hs,-,hp,hb⟩ := htop
  simp only [Split.range] at hs hp hb
  rw [hts] at hs
  cases left with
  | nil =>
    obtain ⟨rfl,-⟩ := List.cons.inj hs
    simp [hl,TokenKind.isParenthesis] at hp
  | cons u left =>
    have hs : left ++ t :: right = interior ts ++ [r] := (List.cons.inj hs).2
    rcases List.eq_nil_or_concat right with rfl | ⟨right,u',rfl⟩
    · obtain ⟨-,ht⟩ := List.append_inj' hs rfl
      obtain ⟨rfl,-⟩ := List.cons.inj ht
      simp [hr,TokenKind.isParenthesis] at hp
    · have hs : (left ++ t :: right) ++ [u'] = interior ts ++ [r] := by simpa using hs
      obtain ⟨hi,hu⟩ := List.append_inj' hs rfl
      obtain ⟨rfl,-⟩ := List.cons.inj hu
      rw [← hi,List.append_cons] at hc
      have hn := hc.balance_suffix_nonpos
      rw [List.concat_eq_append,balance_append,balance_singleton,hr] at hb
      simp only [TokenKind.nesting] at hb
      omega

namespace Split

theorem cutsAt_iff {t : Token} {left right : List Token} :
    cutsAt kinds (-balance right) t = true ↔ (⟨left,t,right⟩ : Split).IsTopLevel kinds := by
  refine ⟨?_,?_⟩
  · intro h
    simp only [cutsAt,Bool.and_eq_true,beq_iff_eq,List.contains_iff_mem,Bool.not_eq_true'] at h
    exact ⟨h.1.2,h.2,by simpa using h.1.1⟩
  · intro h
    obtain ⟨hk,hp,hb⟩ := h
    simp_all [cutsAt]

/-- The depth counter of the search is the balance of what is searched, with its sign changed. -/
theorem search_cons (t : Token) (right before : List Token) :
    search kinds (-balance right) right (t :: before) =
      if cutsAt kinds (-balance right) t then some ⟨before.reverse,t,right⟩
      else search kinds (-balance (t :: right)) (t :: right) before := by
  rw [search]
  congr 2
  simp only [balance]; omega

theorem isTopLevel_of_search {right before : List Token}
    (h : search kinds (-balance right) right before = some s) (hr : ¬ HasTopLevel kinds right) :
    s.IsTopLevel kinds ∧ ¬ HasTopLevel kinds s.right := by
  induction before generalizing right with
  | nil => cases h
  | cons t before ih =>
    rw [search_cons] at h
    split at h
    · rename_i hc
      cases h
      exact ⟨cutsAt_iff.1 hc,hr⟩
    · rename_i hc
      refine ih h ?_
      rw [hasTopLevel_cons,← cutsAt_iff]
      exact not_or.2 ⟨hc,hr⟩

theorem isTopLevel_of_rightmost? (h : rightmost? kinds ts = some s) :
    s.IsTopLevel kinds ∧ ¬ HasTopLevel kinds s.right := by
  have h : search kinds (-balance []) [] ts.reverse = some s := h
  exact isTopLevel_of_search h (not_hasTopLevel_nil kinds)

theorem not_hasTopLevel_of_search {right before : List Token}
    (h : search kinds (-balance right) right before = none) (hr : ¬ HasTopLevel kinds right) :
    ¬ HasTopLevel kinds (before.reverse ++ right) := by
  induction before generalizing right with
  | nil => simpa using hr
  | cons t before ih =>
    rw [search_cons] at h
    split at h
    · cases h
    · rename_i hc
      have hn : ¬ HasTopLevel kinds (t :: right) := by
        rw [hasTopLevel_cons,← cutsAt_iff]
        exact not_or.2 ⟨hc,hr⟩
      simpa using ih h hn

theorem eq_of_range_eq (hr : s.range = s'.range) (h : s.IsTopLevel kinds)
    (h' : s'.IsTopLevel kinds) (hn : ¬ HasTopLevel kinds s.right)
    (hn' : ¬ HasTopLevel kinds s'.right) : s = s' := by
  obtain ⟨left,t,right⟩ := s
  obtain ⟨left',t',right'⟩ := s'
  simp only [range] at hr hn hn'
  rcases List.append_eq_append_iff.1 hr with ⟨between,rfl,hb⟩ | ⟨between,rfl,hb⟩
  · cases between with
    | nil => simp_all
    | cons u between =>
      obtain ⟨-,rfl⟩ := List.cons.inj hb
      exact absurd ⟨⟨between,t',right'⟩,rfl,⟨h'.1,h'.2,h'.3⟩⟩ hn
  · cases between with
    | nil => simp_all
    | cons u between =>
      obtain ⟨-,rfl⟩ := List.cons.inj hb
      exact absurd ⟨⟨between,t,right⟩,rfl,⟨h.1,h.2,h.3⟩⟩ hn'

theorem rightmost?_eq_none_iff : rightmost? kinds ts = none ↔ ¬ HasTopLevel kinds ts := by
  refine ⟨?_,?_⟩
  · intro h
    have h : search kinds (-balance []) [] ts.reverse = none := h
    simpa using not_hasTopLevel_of_search h (not_hasTopLevel_nil kinds)
  · intro hn
    cases h : rightmost? kinds ts with
    | none => rfl
    | some s =>
      exact absurd ⟨s,range_of_rightmost? h,(isTopLevel_of_rightmost? h).1⟩ hn

theorem rightmost?_eq_some_iff :
    rightmost? kinds ts = some s ↔
      s.range = ts ∧ s.IsTopLevel kinds ∧ ¬ HasTopLevel kinds s.right := by
  refine ⟨?_,?_⟩
  · intro h
    exact ⟨range_of_rightmost? h,isTopLevel_of_rightmost? h⟩
  · intro h
    obtain ⟨hr,hs,hn⟩ := h
    cases h : rightmost? kinds ts with
    | none => exact absurd ⟨s,hr,hs⟩ (rightmost?_eq_none_iff.1 h)
    | some s' =>
      have h' := isTopLevel_of_rightmost? h
      have he := eq_of_range_eq (hr.trans (range_of_rightmost? h).symm) hs h'.1 hn h'.2
      rw [he]

theorem IsTopLevel.hasTopLevel_range_iff (h : s.IsTopLevel kinds) :
    HasTopLevel kinds' s.range ↔
      HasTopLevel kinds' s.left ∨ s.operator.kind ∈ kinds' ∨ HasTopLevel kinds' s.right := by
  have hn := s.operator.kind.nesting_of_not_isParenthesis h.not_parenthesis
  have hb : balance (s.operator :: s.right) = 0 := by
    simp only [balance,hn,h.balance_right]; rfl
  have ho : (⟨[],s.operator,s.right⟩ : Split).IsTopLevel kinds' ↔ s.operator.kind ∈ kinds' :=
    ⟨fun h' => h'.kind_mem,fun hk => ⟨hk,h.not_parenthesis,h.balance_right⟩⟩
  rw [range,hasTopLevel_append hb,hasTopLevel_cons,ho]

end Split

end LetPrint
