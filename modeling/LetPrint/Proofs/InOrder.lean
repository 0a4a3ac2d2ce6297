import LetPrint.Proofs.Acceptance
import LetPrint.Proofs.ProgramGrammar

set_option autoImplicit false

namespace LetPrint

inductive Symbol where
  | number (value : Binary64)
  | identifier (name : String)
  | operator (op : BinaryOperator)
  deriving DecidableEq, Repr

def Token.symbol? (t : Token) : Option Symbol :=
  match t.kind with
  | .number => (Binary64.read? t.text).map .number
  | .ident => some (.identifier t.text)
  | kind => (BinaryOperator.ofKind? kind).map .operator

def Expr.symbols : Expr → List Symbol
  | number x => [.number x]
  | identifier name => [.identifier name]
  | binary op l r => l.symbols ++ .operator op :: r.symbols

/-- What the tokens of a range show, those other than parentheses in order. -/
def shown (ts : List Token) : List (Option Symbol) :=
  (ts.filter fun t => !t.kind.isParenthesis).map Token.symbol?

@[simp] theorem shown_append (as bs : List Token) : shown (as ++ bs) = shown as ++ shown bs := by
  simp [shown]

theorem shown_cons_of_parenthesis {t : Token} (ts : List Token) (h : t.kind.isParenthesis = true) :
    shown (t :: ts) = shown ts := by simp [shown,h]

theorem shown_cons {t : Token} (ts : List Token) (h : t.kind.isParenthesis = false) :
    shown (t :: ts) = t.symbol? :: shown ts := by simp [shown,h]

theorem shown_operator {t : Token} {op : BinaryOperator} (ts : List Token)
    (h : t.kind = op.kind) : shown (t :: ts) = some (.operator op) :: shown ts := by
  rw [shown_cons ts (BinaryOperator.not_isParenthesis h)]
  cases op <;> simp [Token.symbol?,h,BinaryOperator.kind,BinaryOperator.ofKind?]

theorem Denotes.shown_eq {t : Token} {e : Expr} (h : Denotes t e) :
    shown [t] = e.symbols.map some := by
  cases h with
  | number hk hx => simp [shown,hk,TokenKind.isParenthesis,Token.symbol?,hx,Expr.symbols]
  | identifier hk => simp [shown,hk,TokenKind.isParenthesis,Token.symbol?,Expr.symbols]

theorem Derives.shown_eq {level : Level} {ts : List Token} {e : Expr}
    (h : Derives Denotes level ts e) : shown ts = e.symbols.map some := by
  induction h with
  | ofProduct _ ih => exact ih
  | ofFactor _ ih => exact ih
  | sum _ ht _ _ hl hr => simp [shown_operator _ ht,hl,hr,Expr.symbols]
  | product _ ht _ _ hl hr => simp [shown_operator _ ht,hl,hr,Expr.symbols]
  | literal _ hd => exact hd.shown_eq
  | @group l r inner e hl hr _ ih =>
    have hl : l.kind.isParenthesis = true := by rw [hl]; rfl
    have hr : r.kind.isParenthesis = true := by rw [hr]; rfl
    rw [shown_cons_of_parenthesis _ hl,shown_append,shown_cons_of_parenthesis _ hr,ih]
    simp [shown]

theorem shown_of_result_parseExpr {ts : List Token} {e : Expr}
    (h : (parseExpr ts).result = .ok e) : shown ts = e.symbols.map some := by
  obtain ⟨hd,-⟩ := result_parseExprAt_eq_ok_iff.1 h
  exact (derives_readable_iff.1 hd).1.shown_eq

/-- Each token of the list has its place in the statement, or is a parenthesis in its value. -/
inductive AccountsFor : List Token → Stmt → Prop where
  | print {keyword : Token} {rest : List Token} {value : Expr} :
      keyword.kind = .printKeyword → shown rest = value.symbols.map some →
      AccountsFor (keyword :: rest) (.print value)
  | define {keyword name equal : Token} {rest : List Token} {value : Expr} :
      keyword.kind = .letKeyword → name.kind = .ident → equal.kind = .equal →
      shown rest = value.symbols.map some →
      AccountsFor (keyword :: name :: equal :: rest) (.define name.text value)

section Statements

variable {ts : List Token} {s : Stmt}

/-- Only between the name and the first equal sign of a definition are there tokens that the
statement does not account for. -/
theorem IsStatement.exists_ignored (h : IsStatement ts s) :
    ∃ front ignored back, ts = front ++ ignored ++ back ∧ AccountsFor (front ++ back) s ∧
      (∀ t ∈ ignored, t.kind ≠ .equal) ∧ (ignored ≠ [] → front.length = 2) := by
  cases h with
  | @print keyword rest value hk hv =>
    have ha := AccountsFor.print hk (shown_of_result_parseExpr hv)
    exact ⟨keyword :: rest,[],[],by simp,by simpa using ha,by simp,by simp⟩
  | @define keyword name equal between rest value hk hn hb he hv =>
    have ha := AccountsFor.define hk hn he (shown_of_result_parseExpr hv)
    exact ⟨[keyword,name],between,equal :: rest,rfl,ha,hb,fun _ => rfl⟩

theorem IsStatement.accountsFor_iff (h : IsStatement ts s) :
    AccountsFor ts s ↔
      ∀ name value, s = .define name value → ∃ t, ts[2]? = some t ∧ t.kind = .equal := by
  refine ⟨?_,?_⟩
  · intro ha name value hs
    cases ha with
    | print => cases hs
    | @define _ _ equal _ _ _ _ he => exact ⟨equal,rfl,he⟩
  · intro hthird
    cases h with
    | print hk hv => exact .print hk (shown_of_result_parseExpr hv)
    | @define keyword name equal between rest value hk hn hb he hv =>
      obtain ⟨t,ht,hte⟩ := hthird _ _ rfl
      cases between with
      | nil => exact .define hk hn he (shown_of_result_parseExpr hv)
      | cons u between =>
        obtain rfl : u = t := by simpa using ht
        exact absurd hte (hb u (by simp))

/-- A statement accounts for every token it is read from but those between the name and the first
equal sign of a definition; so it accounts for all tokens exactly if there are none such. -/
theorem accountsFor_of_parseStatement (h : (parseStatement ts).result = .ok s) :
    (∃ front ignored back, ts = front ++ ignored ++ back ∧ AccountsFor (front ++ back) s ∧
      (∀ t ∈ ignored, t.kind ≠ .equal) ∧ (ignored ≠ [] → front.length = 2)) ∧
    (AccountsFor ts s ↔
      ∀ name value, s = .define name value → ∃ t, ts[2]? = some t ∧ t.kind = .equal) := by
  have hs := result_parseStatement_eq_ok_iff_isStatement.1 h
  exact ⟨hs.exists_ignored,hs.accountsFor_iff⟩

theorem accountsFor_of_parseStatement_product :
    AccountsFor [⟨.letKeyword,"let"⟩,⟨.ident,"x"⟩,⟨.equal,"="⟩,⟨.ident,"y"⟩,⟨.mul,"*"⟩,
        ⟨.lparen,"("⟩,⟨.ident,"z"⟩,⟨.rparen,")"⟩]
      (.define "x" (.binary .multiply (.identifier "y") (.identifier "z"))) := by
  have hd : Derives (fun t e => parsePrimary t = .ok e) .sum ([⟨.ident,"y"⟩] ++ ⟨.mul,"*"⟩ ::
      ⟨.lparen,"("⟩ :: ([⟨.ident,"z"⟩] ++ [⟨.rparen,")"⟩]))
      (.binary .multiply (.identifier "y") (.identifier "z")) :=
    .ofProduct (.product rfl rfl (.ofFactor (.literal rfl rfl))
      (.group rfl rfl (.ofProduct (.ofFactor (.literal rfl rfl)))))
  have hs : (parseStatement [⟨.letKeyword,"let"⟩,⟨.ident,"x"⟩,⟨.equal,"="⟩,⟨.ident,"y"⟩,⟨.mul,"*"⟩,
      ⟨.lparen,"("⟩,⟨.ident,"z"⟩,⟨.rparen,")"⟩]).result =
      .ok (.define "x" (.binary .multiply (.identifier "y") (.identifier "z"))) :=
    result_parseStatement_eq_ok_iff_isStatement.2 (@IsStatement.define ⟨.letKeyword,"let"⟩
      ⟨.ident,"x"⟩ ⟨.equal,"="⟩ [] _ _ rfl rfl (by simp) rfl
      (result_parseExprAt_eq_ok_iff.2 ⟨hd,by decide⟩))
  exact (accountsFor_of_parseStatement hs).2.2 fun _ _ _ => ⟨⟨.equal,"="⟩,rfl,rfl⟩

theorem not_accountsFor_second_name :
    (parseStatement [⟨.letKeyword,"let"⟩,⟨.ident,"x"⟩,⟨.ident,"y"⟩,⟨.equal,"="⟩,
        ⟨.ident,"z"⟩]).result = .ok (.define "x" (.identifier "z")) ∧
    ¬ AccountsFor [⟨.letKeyword,"let"⟩,⟨.ident,"x"⟩,⟨.ident,"y"⟩,⟨.equal,"="⟩,⟨.ident,"z"⟩]
      (.define "x" (.identifier "z")) := by
  refine ⟨by cbv,?_⟩
  intro h
  cases h with
  | define _ _ he => cases he

end Statements

end LetPrint
