import LetPrint.Proofs.Acceptance

/-!
Which fault of a phrase is reported. A phrase of the grammar can only fail at a numeral without a
finite value or at a parenthesis that opens a group too deep. The ranges are cut from the right and
the groups entered from outside, yet the reading comes to these places in the order of the text, so
it ends at the leftmost of them with the error of that place.
-/

set_option autoImplicit false

namespace LetPrint

/-- The list is a sum of the grammar, whatever its numerals say and however deep its groups are. -/
def IsSum (ts : List Token) : Prop := ∃ e, Derives (fun _ _ => True) .sum ts e

/-- Behind `before`, and with `depth` groups around it all, the token is a numeral without a finite
value, or it opens a group inside as many others as the limit allows. -/
def Refused (depth : Int) (before : List Token) (t : Token) : Prop :=
  ¬ ReadsFinite t ∨ t.kind = .lparen ∧ depth + balance before = nestingLimit

def HasRefused (depth : Int) (ts : List Token) : Prop :=
  ∃ before t after, ts = before ++ t :: after ∧ Refused depth before t

/-- The error at a refused token: on a numeral alone, or on what stands between a parenthesis and
its partner. -/
inductive Reported : Token → List Token → SyntaxError → Prop where
  | number {t : Token} {after : List Token} :
      ¬ ReadsFinite t → Reported t after ⟨.number t.text,[t]⟩
  | nesting {l r : Token} {inner rest : List Token} :
      l.kind = .lparen → r.kind = .rparen → Closed inner →
      Reported l (inner ++ r :: rest) ⟨.nesting nestingLimit,inner⟩

def ReportsFirst (depth : Int) (ts : List Token) (e : SyntaxError) : Prop :=
  ∃ before t after, ts = before ++ t :: after ∧ Refused depth before t ∧
    ¬ HasRefused depth before ∧ Reported t after e

section Places

variable {depth : Int} {ts as bs : List Token} {t : Token} {e : SyntaxError}

theorem refused_append {before : List Token} :
    Refused depth (as ++ before) t ↔ Refused (depth + balance as) before t := by
  simp only [Refused,balance_append,Int.add_assoc]

theorem not_hasRefused_nil (depth : Int) : ¬ HasRefused depth [] := by
  intro h
  obtain ⟨before,t,after,hs,-⟩ := h
  simp at hs

theorem hasRefused_cons :
    HasRefused depth (t :: ts) ↔ Refused depth [] t ∨ HasRefused (depth + t.kind.nesting) ts := by
  refine ⟨?_,?_⟩
  · intro h
    obtain ⟨before,u,after,hs,h⟩ := h
    cases before with
    | nil =>
      obtain ⟨rfl,-⟩ := List.cons.inj hs
      exact .inl h
    | cons v before =>
      obtain ⟨rfl,rfl⟩ := List.cons.inj hs
      rw [← balance_singleton]
      exact .inr ⟨before,u,after,rfl,refused_append.1 h⟩
  · intro h
    rcases h with h | ⟨before,u,after,rfl,h⟩
    · exact ⟨[],t,ts,rfl,h⟩
    · rw [← balance_singleton] at h
      exact ⟨t :: before,u,after,rfl,refused_append.2 h⟩

theorem hasRefused_append :
    HasRefused depth (as ++ bs) ↔ HasRefused depth as ∨ HasRefused (depth + balance as) bs := by
  induction as generalizing depth with
  | nil => simp [not_hasRefused_nil,balance]
  | cons t as ih =>
    rw [List.cons_append,hasRefused_cons,hasRefused_cons,ih,balance,Int.add_assoc,or_assoc]

theorem readsFinite_of_kind (hn : t.kind ≠ .number) : ReadsFinite t := fun h => absurd h hn

theorem not_refused_of_kind {before : List Token} (hn : t.kind ≠ .number) (hl : t.kind ≠ .lparen) :
    ¬ Refused depth before t := by
  intro h
  rcases h with h | ⟨h,-⟩
  · exact h (readsFinite_of_kind hn)
  · exact hl h

theorem hasRefused_singleton : HasRefused depth [t] ↔ Refused depth [] t := by
  simp only [hasRefused_cons,not_hasRefused_nil,or_false]

theorem ReportsFirst.append_right (h : ReportsFirst depth as e) (bs : List Token) :
    ReportsFirst depth (as ++ bs) e := by
  obtain ⟨before,t,after,rfl,ht,hb,hr⟩ := h
  refine ⟨before,t,after ++ bs,by simp,ht,hb,?_⟩
  cases hr with
  | number hn => exact .number hn
  | nesting hl hrp hc =>
    rw [List.append_assoc,List.cons_append]
    exact .nesting hl hrp hc

theorem ReportsFirst.append_left (ha : ¬ HasRefused depth as)
    (h : ReportsFirst (depth + balance as) bs e) : ReportsFirst depth (as ++ bs) e := by
  obtain ⟨before,t,after,rfl,ht,hb,hr⟩ := h
  refine ⟨as ++ before,t,after,by simp,refused_append.2 ht,?_,hr⟩
  rw [hasRefused_append]
  exact not_or.2 ⟨ha,hb⟩

theorem ReportsFirst.hasRefused (h : ReportsFirst depth ts e) : HasRefused depth ts := by
  obtain ⟨before,t,after,hs,ht,-⟩ := h
  exact ⟨before,t,after,hs,ht⟩

theorem ReportsFirst.reported {before after : List Token}
    (h : ReportsFirst depth (before ++ t :: after) e) (ht : Refused depth before t)
    (hb : ¬ HasRefused depth before) : Reported t after e := by
  obtain ⟨before',t',after',hs,ht',hb',hr⟩ := h
  rcases List.append_eq_append_iff.1 hs with ⟨between,rfl,hc⟩ | ⟨between,rfl,hc⟩
  · cases between with
    | nil =>
      obtain ⟨rfl,rfl⟩ := List.cons.inj hc
      exact hr
    | cons u between =>
      obtain ⟨rfl,-⟩ := List.cons.inj hc
      exact absurd ⟨before,t,between,rfl,ht⟩ hb'
  · cases between with
    | nil =>
      obtain ⟨rfl,rfl⟩ := List.cons.inj hc
      exact hr
    | cons u between =>
      obtain ⟨rfl,-⟩ := List.cons.inj hc
      exact absurd ⟨before',t',between,rfl,ht'⟩ hb

end Places

theorem exists_parsePrimary {t : Token} (ht : t.isLiteral = true) (hf : ReadsFinite t) :
    ∃ e, parsePrimary t = .ok e := by
  cases hk : t.kind <;> simp [Token.isLiteral,hk,TokenKind.isLiteral] at ht
  · obtain ⟨x,hx,-⟩ := hf hk
    exact ⟨_,parsePrimary_eq_ok_iff.2 ⟨.number hk hx,hf⟩⟩
  · exact ⟨_,parsePrimary_eq_ok_iff.2 ⟨.identifier hk,hf⟩⟩

theorem parsePrimary_of_not_readsFinite {t : Token} (hf : ¬ ReadsFinite t) :
    parsePrimary t = .error ⟨.number t.text,[t]⟩ := by
  have hk : t.kind = .number := by
    by_contra hk
    exact hf (readsFinite_of_kind hk)
  simp only [parsePrimary,hk]
  split
  · rename_i x hx
    split
    · exact absurd (fun _ => ⟨x,hx,‹_›⟩) hf
    · rfl
  · rfl

/-- The result of a reading: a tree if no token is refused, else the error of the leftmost. -/
def Settles (depth : Nat) (ts : List Token) : Except SyntaxError Expr → Prop
  | .ok _ => ¬ HasRefused depth ts
  | .error e => ReportsFirst depth ts e

theorem settles_parsePrimary {t : Token} (depth : Nat) (ht : t.isLiteral = true) :
    Settles depth [t] (parsePrimary t) := by
  by_cases hf : ReadsFinite t
  · obtain ⟨e,he⟩ := exists_parsePrimary ht hf
    have hl : t.kind ≠ .lparen := by
      intro hl
      simp [Token.isLiteral,hl,TokenKind.isLiteral] at ht
    rw [he]
    simp [Settles,hasRefused_cons,not_hasRefused_nil,Refused,hl,hf]
  · rw [parsePrimary_of_not_readsFinite hf]
    exact ⟨[],t,[],rfl,.inl hf,not_hasRefused_nil depth,.number hf⟩

/-- Both sides of an operator are read in turn, so the whole settles if they do. -/
theorem settles_of_outermost {ls rs : List Token} {t : Token} {op : BinaryOperator} {depth : Nat}
    (hd : depth ≤ nestingLimit) (hs : Split.outermost? (ls ++ t :: rs) = some ⟨ls,t,rs⟩)
    (ht : t.kind = op.kind) (hb : balance ls = 0)
    (hl : Settles depth ls (parseExprAt depth ls).result)
    (hr : Settles depth rs (parseExprAt depth rs).result) :
    Settles depth (ls ++ t :: rs) (parseExprAt depth (ls ++ t :: rs)).result := by
  have hn := t.kind.nesting_of_not_isParenthesis (BinaryOperator.not_isParenthesis ht)
  rw [result_parseExprAt_of_outermost hd hs ht]
  cases hlr : (parseExprAt depth ls).result with
  | error e =>
    rw [hlr] at hl
    exact hl.append_right (t :: rs)
  | ok l =>
    rw [hlr] at hl
    have htr : ¬ Refused (depth + balance ls) [] t :=
      not_refused_of_kind (by rw [ht]; cases op <;> decide) (by rw [ht]; cases op <;> decide)
    have hlt : ¬ HasRefused depth (ls ++ [t]) := by
      rw [hasRefused_append,hasRefused_singleton]
      exact not_or.2 ⟨hl,htr⟩
    have hbt : depth + balance (ls ++ [t]) = depth := by
      simp [balance_singleton,hb,hn]
    rw [List.append_cons]
    cases hrr : (parseExprAt depth rs).result with
    | error e =>
      rw [hrr] at hr
      exact ReportsFirst.append_left hlt (hbt.symm ▸ hr)
    | ok r =>
      rw [hrr] at hr
      have hr : ¬ HasRefused (depth + balance (ls ++ [t])) rs := hbt.symm ▸ hr
      exact mt hasRefused_append.1 (not_or.2 ⟨hlt,hr⟩)

theorem settles_enclosed {l r : Token} {inner : List Token} {depth : Nat} (hl : l.kind = .lparen)
    (hr : r.kind = .rparen) (hc : Closed inner) (hd : depth ≤ nestingLimit)
    (hin : depth + 1 ≤ nestingLimit →
      Settles (depth+1) inner (parseExprAt (depth+1) inner).result) :
    Settles depth (l :: (inner ++ [r])) (parseExprAt (depth+1) inner).result := by
  rcases Nat.lt_or_eq_of_le hd with hd | rfl
  · have hin := hin hd
    have hn : balance [l] = 1 := by rw [balance_singleton,hl]; rfl
    have hlr : ¬ HasRefused depth [l] := by
      rw [hasRefused_singleton]
      rintro (hf | ⟨-,hb⟩)
      · exact hf (readsFinite_of_kind (by rw [hl]; decide))
      · simp only [balance] at hb
        omega
    rw [← List.singleton_append]
    cases hres : (parseExprAt (depth+1) inner).result with
    | error e =>
      rw [hres] at hin
      refine ReportsFirst.append_left hlr ?_
      rw [hn]
      exact hin.append_right [r]
    | ok e =>
      rw [hres] at hin
      have hrr : ¬ HasRefused (depth + 1 + balance inner) [r] := by
        rw [hasRefused_singleton]
        exact not_refused_of_kind (by rw [hr]; decide) (by rw [hr]; decide)
      have hi : ¬ HasRefused (depth + balance [l]) (inner ++ [r]) := by
        rw [hn,hasRefused_append]
        exact not_or.2 ⟨hin,hrr⟩
      exact mt hasRefused_append.1 (not_or.2 ⟨hlr,hi⟩)
  · rw [result_parseExprAt_of_deep (Nat.lt_succ_self _)]
    exact ⟨[],l,inner ++ [r],rfl,.inr ⟨hl,by simp [balance]⟩,not_hasRefused_nil _,
      .nesting hl hr hc⟩

theorem Derives.settles {Leaf : Token → Expr → Prop} {level : Level} {ts : List Token} {e : Expr}
    (h : Derives Leaf level ts e) {depth : Nat} (hd : depth ≤ nestingLimit) :
    Settles depth ts (parseExprAt depth ts).result := by
  induction h generalizing depth with
  | ofProduct _ ih => exact ih hd
  | ofFactor _ ih => exact ih hd
  | @sum ls _ _ _ _ _ hop ht dl dr hl hr =>
    exact settles_of_outermost hd (outermost?_sum ls hop ht dr) ht dl.closed.1 (hl hd) (hr hd)
  | product hop ht dl dr hl hr =>
    exact settles_of_outermost hd (outermost?_product hop ht dl dr) ht dl.closed.1 (hl hd) (hr hd)
  | literal ht _ =>
    rw [result_parseExprAt hd,Form.ofRange_singleton ht]
    exact settles_parsePrimary depth ht
  | group hl hr d ih =>
    rw [result_parseExprAt hd,Form.ofRange_enclosed hl hr d.closed]
    exact settles_enclosed hl hr d.closed hd ih

/-- A sum fails exactly if it holds a refused token, and the leftmost one decides the error. For a
numeral that is an error on the numeral alone, for a parenthesis one on what it encloses. -/
theorem parseExpr_reports_first_refused {ts : List Token} (h : IsSum ts) :
    ((∃ e, (parseExpr ts).result = .error e) ↔ HasRefused 0 ts) ∧
    ∀ before t after, ts = before ++ t :: after → Refused 0 before t → ¬ HasRefused 0 before →
      (¬ ReadsFinite t → (parseExpr ts).result = .error ⟨.number t.text,[t]⟩) ∧
      (t.kind = .lparen → ∃ inner r rest, after = inner ++ r :: rest ∧ r.kind = .rparen ∧
        Closed inner ∧ (parseExpr ts).result = .error ⟨.nesting nestingLimit,inner⟩) := by
  obtain ⟨tree,hd⟩ := h
  have hs : Settles 0 ts (parseExpr ts).result := hd.settles (Nat.zero_le _)
  refine ⟨?_,?_⟩
  · cases hr : (parseExpr ts).result with
    | error e =>
      rw [hr] at hs
      exact ⟨fun _ => ReportsFirst.hasRefused hs,fun _ => ⟨e,rfl⟩⟩
    | ok e =>
      rw [hr] at hs
      refine ⟨?_,fun h => absurd h hs⟩
      rintro ⟨e',he⟩
      cases he
  · rintro before t after rfl ht hb
    cases hr : (parseExpr (before ++ t :: after)).result with
    | ok e =>
      rw [hr] at hs
      exact absurd ⟨before,t,after,rfl,ht⟩ hs
    | error e =>
      rw [hr] at hs
      cases ReportsFirst.reported hs ht hb with
      | number hn =>
        refine ⟨fun _ => rfl,?_⟩
        intro hl
        exact absurd (readsFinite_of_kind (by rw [hl]; decide)) hn
      | nesting hl hrp hc =>
        refine ⟨?_,fun _ => ⟨_,_,_,rfl,hrp,hc,rfl⟩⟩
        intro hn
        exact absurd (readsFinite_of_kind (by rw [hl]; decide)) hn

theorem parseExpr_reports_first_refused_numeral :
    (parseExpr [⟨.ident,"a"⟩,⟨.plus,"+"⟩,⟨.number,"1x"⟩,⟨.mul,"*"⟩,⟨.number,"2y"⟩]).result =
      .error ⟨.number "1x",[⟨.number,"1x"⟩]⟩ := by
  have hsum : IsSum ([⟨.ident,"a"⟩] ++ ⟨.plus,"+"⟩ :: ([⟨.number,"1x"⟩] ++ ⟨.mul,"*"⟩ ::
      [⟨.number,"2y"⟩])) := by
    have hleaf : ∀ t : Token, t.isLiteral = true →
        Derives (fun _ _ => True) .factor [t] (.identifier "a") :=
      fun t ht => .literal ht trivial
    exact ⟨.binary .add (.identifier "a") (.binary .multiply (.identifier "a") (.identifier "a")),
      .sum rfl rfl (.ofProduct (.ofFactor (hleaf _ rfl)))
        (.product rfl rfl (.ofFactor (hleaf _ rfl)) (hleaf _ rfl))⟩
  have hread : ¬ ReadsFinite ⟨.number,"1x"⟩ := by
    intro h
    obtain ⟨x,hx,-⟩ := h rfl
    have hn : Binary64.read? "1x" = none := by rfl
    cases hn.symm.trans hx
  have hleft : ¬ HasRefused 0 [⟨.ident,"a"⟩,⟨.plus,"+"⟩] := by
    rw [hasRefused_cons,hasRefused_singleton]
    exact not_or.2 ⟨not_refused_of_kind (by decide) (by decide),
      not_refused_of_kind (by decide) (by decide)⟩
  exact ((parseExpr_reports_first_refused hsum).2 [⟨.ident,"a"⟩,⟨.plus,"+"⟩] ⟨.number,"1x"⟩ _ rfl
    (.inl hread) hleft).1 hread

end LetPrint
