import LetPrint.Proofs.CallNesting
import LetPrint.Proofs.IndexedRanges
import LetPrint.Proofs.StatementFaults

/-!
Reading by index. Every part of a range that is read further is taken by index, every depth is
counted in 32 bits, and one failure of either would end the reading with neither a value nor an
error. On fewer than 2^31 tokens, however malformed, that never happens, in no call on no part: what
is read by index is what is read without. What a range is cut at is never found to be no operator.
-/

set_option autoImplicit false

namespace LetPrint

section Expressions

def parseChainByIndex (operand : List Token → OptionT Traced Expr) (depth : Nat)
    (ts : List Token) : OptionT Traced Expr := do
  match ← Traced.require (Chain.ofRangeByIndex? ts) with
  | .error fault => liftM (Traced.fail (.expression fault) ts : Traced Expr)
  | .ok chain =>
    Traced.emitAll chain.found
    Traced.emit (.chained chain.tier chain.links.length depth)
    let first ← operand chain.first
    chain.links.foldlM (fun left link => do
      let right ← operand link.operand
      return .binary link.operator left right) first

def parseExprByIndexWithin : Nat → Nat → List Token → OptionT Traced Expr
  | 0, _, _ => failure
  | budget+1, depth, ts =>
    if nestingLimit < depth then
      liftM (Traced.fail (.nesting nestingLimit) ts : Traced Expr)
    else do
      match ← Traced.require (Form.ofRangeByIndex? ts) with
      | .literal t => liftM (Traced.ofResult (parsePrimary t))
      | .group inner =>
        Traced.emit (.unwrapped depth)
        parseExprByIndexWithin budget (depth+1) inner
      | .operation => parseChainByIndex (parseExprByIndexWithin budget depth) depth ts
      | .missing => liftM (Traced.fail (.expression .missingOperand) ts : Traced Expr)
      | .formless => liftM (Traced.fail (.expression .formless) ts : Traced Expr)

/-- Three calls for each depth within the limit and one beyond it are never used up. -/
def parseExprByIndex (ts : List Token) : OptionT Traced Expr := parseExprByIndexWithin 772 0 ts

def parseBinaryByIndex (ts : List Token) : OptionT Traced Expr :=
  parseChainByIndex parseExprByIndex 0 ts

variable {ts : List Token} {chain : Chain} {budget depth : Nat}

theorem foldlM_congr {m : Type → Type} [Monad m] {α β : Type} {f g : β → α → m β} {as : List α}
    (h : ∀ a ∈ as, ∀ b, f b a = g b a) (b : β) : as.foldlM f b = as.foldlM g b := by
  induction as generalizing b with
  | nil => rfl
  | cons a as ih =>
    rw [List.foldlM_cons,List.foldlM_cons,h a (by simp)]
    exact bind_congr fun c => ih (fun a' ha => h a' (by simp [ha])) c

/-- The parts of a range are no longer than the range, so the bound on its length holds for them. -/
theorem parseExprByIndexWithin_eq (h : ts.length < 1 <<< 31) :
    parseExprByIndexWithin budget depth ts = parseExprWithin budget depth ts := by
  induction budget generalizing depth ts with
  | zero => rfl
  | succ budget ih =>
    rw [parseExprByIndexWithin,parseExprWithin,Form.ofRangeByIndex?_eq h,Traced.require_some,
      pure_bind]
    cases hf : Form.ofRange ts with
    | literal t => rfl
    | missing => rfl
    | formless => rfl
    | group inner =>
      have hl := Form.length_lt_of_ofRange hf
      simp only [ih (show inner.length < 1 <<< 31 by omega)]
    | operation =>
      simp only [parseChainByIndex,Chain.ofRangeByIndex?_eq h,Traced.require_some,pure_bind]
      cases hc : Chain.ofRange ts with
      | error fault => rfl
      | ok chain =>
        have hpart : ∀ part ∈ chain.operands,
            parseExprByIndexWithin budget depth part = parseExprWithin budget depth part :=
          fun part hp => ih ((Chain.length_lt_of_mem_operands hc hp).trans h)
        have hlinks : ∀ left, chain.links.foldlM (fun left link => do
              let right ← parseExprByIndexWithin budget depth link.operand
              return Expr.binary link.operator left right) left =
            chain.links.foldlM (fun left link => do
              let right ← parseExprWithin budget depth link.operand
              return Expr.binary link.operator left right) left := by
          refine foldlM_congr fun link hl left => ?_
          rw [hpart _ (Chain.operand_mem_operands hl)]
        simp only [hpart _ chain.first_mem_operands,hlinks]

theorem completes_parseExprByIndex (h : ts.length < 1 <<< 31) :
    Traced.Completes (parseExprByIndex ts) (parseExpr ts) := by
  rw [parseExprByIndex,parseExprByIndexWithin_eq h]
  exact completes_parseExprWithin (Nat.zero_le _) (Level.covers_sum ts) (by decide)

theorem completes_parseBinaryByIndex (h : ts.length < 1 <<< 31) :
    Traced.Completes (parseBinaryByIndex ts) (parseBinary ts) := by
  rw [parseBinaryByIndex,parseBinary,parseChainByIndex,parseChainAt_by_chain]
  refine .require_bind (Chain.ofRangeByIndex?_eq h) ?_
  cases hc : Chain.ofRange ts with
  | error fault => exact Traced.completes_lift _
  | ok chain =>
    have hpart : ∀ part ∈ chain.operands,
        Traced.Completes (parseExprByIndex part) (parseExprAt 0 part) :=
      fun part hp => completes_parseExprByIndex ((Chain.length_lt_of_mem_operands hc hp).trans h)
    refine (Traced.completes_lift _).bind fun _ => (Traced.completes_lift _).bind fun _ => ?_
    exact completes_operands hpart

end Expressions

section Statements

def parseDefineByIndex (ts : List Token) : OptionT Traced Stmt :=
  match definedName? ts with
  | none => liftM (Traced.fail (.statement .missingName) ts : Traced Stmt)
  | some name => do
    let tail ← Traced.require (slice? 1 ts.length ts)
    let pieces ← Traced.require (chunksByIndex? .equal (some 2) tail)
    Traced.emit (.chunked .equal pieces.length)
    if pieces.length ≠ 2 then liftM (Traced.fail (.statement .missingValue) ts : Traced Stmt)
    else do
      let value ← Traced.require pieces[1]?
      return .define name (← parseExprByIndex value)

/-- The tokens after the first, none if there is no first. -/
def parsePrintByIndex (ts : List Token) : OptionT Traced Stmt := do
  return .print (← parseExprByIndex ((slice? 1 ts.length ts).getD []))

def parseStatementByIndex (ts : List Token) : OptionT Traced Stmt :=
  match ts with
  | [] => liftM (Traced.fail (.statement .empty) ts : Traced Stmt)
  | first :: _ =>
    match first.kind with
    | .letKeyword => parseDefineByIndex ts
    | .printKeyword => parsePrintByIndex ts
    | _ => liftM (Traced.fail (.statement (.unknownKeyword first.text)) ts : Traced Stmt)

def parseProgramByIndex (ts : List Token) : OptionT Traced Program :=
  if ts = [] then liftM (Traced.fail (.statement .noStatements) [] : Traced Program)
  else do
    let pieces ← Traced.require (chunksByIndex? .semicolon none ts)
    Traced.emit (.chunked .semicolon pieces.length)
    let body ← pieces.mapM parseStatementByIndex
    Traced.emit (.parsed ts.length body.length)
    return ⟨body⟩

variable {ts : List Token}

theorem completes_parseDefineByIndex (h : ts.length < 1 <<< 31) :
    Traced.Completes (parseDefineByIndex ts) (parseDefine ts) := by
  rw [parseDefineByIndex,parseDefine]
  cases hn : definedName? ts with
  | none => exact Traced.completes_lift _
  | some name =>
    obtain ⟨keyword,rest,rfl⟩ : ∃ keyword rest, ts = keyword :: rest := by
      cases ts with
      | nil => cases hn
      | cons keyword rest => exact ⟨keyword,rest,rfl⟩
    refine .require_bind (slice?_tail keyword rest) (.require_bind (chunksByIndex?_eq ..) ?_)
    refine (Traced.completes_lift _).bind fun _ => ?_
    simp only [List.drop_one,List.tail_cons]
    rcases hc : chunks .equal (some 2) rest with _ | ⟨before,_ | ⟨value,_ | ⟨more,others⟩⟩⟩
    · exact Traced.completes_lift _
    · exact Traced.completes_lift _
    · have hv : value ∈ chunks .equal (some 2) rest := by simp [hc]
      have hl := (isInfix_of_mem_cutAt hv).length_le
      have hv := completes_parseExprByIndex (show value.length < 1 <<< 31 by
        rw [List.length_cons] at h; omega)
      exact .require_bind rfl (hv.bind fun e => Traced.completes_pure _)
    · exact Traced.completes_lift _

theorem completes_parsePrintByIndex (h : ts.length < 1 <<< 31) :
    Traced.Completes (parsePrintByIndex ts) (parsePrint ts) := by
  have hs : (slice? 1 ts.length ts).getD [] = ts.drop 1 := by
    cases ts with
    | nil => rfl
    | cons t ts => rw [slice?_tail]; rfl
  rw [parsePrintByIndex,parsePrint,hs]
  refine (completes_parseExprByIndex ?_).bind fun e => Traced.completes_pure _
  rw [List.length_drop]
  omega

theorem completes_parseStatementByIndex (h : ts.length < 1 <<< 31) :
    Traced.Completes (parseStatementByIndex ts) (parseStatement ts) := by
  cases ts with
  | nil => exact Traced.completes_lift _
  | cons first rest =>
    cases hk : first.kind with
    | letKeyword =>
      simpa only [parseStatementByIndex,parseStatement,hk] using completes_parseDefineByIndex h
    | printKeyword =>
      simpa only [parseStatementByIndex,parseStatement,hk] using completes_parsePrintByIndex h
    | _ =>
      simpa only [parseStatementByIndex,parseStatement,hk] using Traced.completes_lift _

theorem completes_parseProgramByIndex (h : ts.length < 1 <<< 31) :
    Traced.Completes (parseProgramByIndex ts) (parseProgram ts) := by
  rw [parseProgramByIndex,parseProgram]
  split
  · exact Traced.completes_lift _
  · refine .require_bind (chunksByIndex?_eq ..) ?_
    refine (Traced.completes_lift _).bind fun _ => ?_
    have hpieces : ∀ piece ∈ chunks .semicolon none ts,
        Traced.Completes (parseStatementByIndex piece) (parseStatement piece) := by
      intro piece hp
      have hl := (isInfix_of_mem_cutAt hp).length_le
      exact completes_parseStatementByIndex (by omega)
    refine (Traced.completes_mapM hpieces).bind fun body => ?_
    exact (Traced.completes_lift _).bind fun _ => Traced.completes_pure _

end Statements

section Faults

def SyntaxError.ExpectsOperator (e : SyntaxError) : Prop :=
  ∃ fault, e.fault = .expression fault ∧ fault.message = "expected an arithmetic operator"

variable {ts : List Token} {e : SyntaxError}

theorem not_expectsOperator_statement (fault : StatementFault) (ts : List Token) :
    ¬ SyntaxError.ExpectsOperator ⟨.statement fault,ts⟩ := by
  rintro ⟨fault',h,-⟩
  cases h

theorem LocatedIn.not_expectsOperator {pairs : Nat} (h : LocatedIn ts pairs e) :
    ¬ e.ExpectsOperator := by
  rintro ⟨fault,hf,hm⟩
  cases h with
  | @expression fault' range _ hr he =>
    obtain rfl := Fault.expression.inj hf
    have hne : ∀ fault ∈ [ExpressionFault.noTopLevelOperator,.missingOperand,.formless],
        fault.message ≠ "expected an arithmetic operator" := by decide
    exact hne _ (hr.fault_cases he) hm
  | number => cases hf
  | nesting => cases hf

theorem not_expectsOperator_of_parseExpr (h : (parseExpr ts).result = .error e) :
    ¬ e.ExpectsOperator := (locatedIn_of_parseExpr h).not_expectsOperator

theorem not_expectsOperator_of_parseBinary (h : (parseBinary ts).result = .error e) :
    ¬ e.ExpectsOperator := by
  rw [parseBinary] at h
  by_cases ho : HasOperator ts
  · rw [← ho.parseExprAt_eq (Nat.zero_le _)] at h
    exact not_expectsOperator_of_parseExpr h
  · rw [parseChainAt_of_not_hasOperator ho] at h
    obtain rfl := Except.error.inj h
    rintro ⟨fault,hf,hm⟩
    obtain rfl := Fault.expression.inj hf
    exact absurd hm (by decide)

theorem not_expectsOperator_of_parseDefine (h : (parseDefine ts).result = .error e) :
    ¬ e.ExpectsOperator := by
  rw [parseDefine] at h
  split at h
  · obtain rfl := Except.error.inj h
    exact not_expectsOperator_statement _ _
  · simp only [Traced.result_bind,Traced.result_emit,Except.bind] at h
    split at h
    · rw [Traced.result_bind] at h
      exact not_expectsOperator_of_parseExpr (map_eq_error_iff.1 h)
    · obtain rfl := Except.error.inj h
      exact not_expectsOperator_statement _ _

theorem not_expectsOperator_of_parsePrint (h : (parsePrint ts).result = .error e) :
    ¬ e.ExpectsOperator := by
  rw [parsePrint,Traced.result_bind] at h
  exact not_expectsOperator_of_parseExpr (map_eq_error_iff.1 h)

theorem not_expectsOperator_of_parseStatement (h : (parseStatement ts).result = .error e) :
    ¬ e.ExpectsOperator := by
  rcases cases_of_parseStatement_error h with ⟨fault,-,rfl⟩ | ⟨value,-,he⟩
  · exact not_expectsOperator_statement _ _
  · exact not_expectsOperator_of_parseExpr he

theorem not_expectsOperator_of_parseProgram (h : (parseProgram ts).result = .error e) :
    ¬ e.ExpectsOperator := by
  rcases cases_of_parseProgram_error h with rfl | ⟨fault,c,-,-,rfl⟩ | ⟨value,-,hl⟩
  · exact not_expectsOperator_statement _ _
  · exact not_expectsOperator_statement _ _
  · exact hl.not_expectsOperator

end Faults

/-- The reading by index does what the other one does, so it never comes to nothing, and neither of
them reports that something is no operator. -/
structure Traced.ReadsSafely {α : Type} (byIndex : OptionT Traced α) (x : Traced α) : Prop where
  completes : Traced.Completes byIndex x
  not_expectsOperator : ∀ e, x.result = .error e → ¬ e.ExpectsOperator

/-- Reading fewer than 2^31 tokens takes no part from outside a range and counts no depth beyond 32
bits, whichever rule it starts with, and what is cut at is always an operator. -/
theorem reads_safely_by_index {ts : List Token} (h : ts.length < 1 <<< 31) :
    Traced.ReadsSafely (parseProgramByIndex ts) (parseProgram ts) ∧
    Traced.ReadsSafely (parseStatementByIndex ts) (parseStatement ts) ∧
    Traced.ReadsSafely (parseDefineByIndex ts) (parseDefine ts) ∧
    Traced.ReadsSafely (parsePrintByIndex ts) (parsePrint ts) ∧
    Traced.ReadsSafely (parseExprByIndex ts) (parseExpr ts) ∧
    Traced.ReadsSafely (parseBinaryByIndex ts) (parseBinary ts) ∧
    isGroupByIndex? ts = some (isGroup ts) ∧
    ∀ kinds, Split.rightmostByIndex? kinds ts = some (Split.rightmost? kinds ts) :=
  ⟨⟨completes_parseProgramByIndex h,fun _ => not_expectsOperator_of_parseProgram⟩,
    ⟨completes_parseStatementByIndex h,fun _ => not_expectsOperator_of_parseStatement⟩,
    ⟨completes_parseDefineByIndex h,fun _ => not_expectsOperator_of_parseDefine⟩,
    ⟨completes_parsePrintByIndex h,fun _ => not_expectsOperator_of_parsePrint⟩,
    ⟨completes_parseExprByIndex h,fun _ => not_expectsOperator_of_parseExpr⟩,
    ⟨completes_parseBinaryByIndex h,fun _ => not_expectsOperator_of_parseBinary⟩,
    isGroupByIndex?_eq h,Split.rightmostByIndex?_eq h⟩

theorem reads_safely_by_index_unbalanced :
    (parseProgramByIndex [⟨.letKeyword,"let"⟩,⟨.ident,"x"⟩,⟨.equal,"="⟩,⟨.rparen,")"⟩,
        ⟨.lparen,"("⟩]).run.result =
      .error ⟨.expression .formless,[⟨.rparen,")"⟩,⟨.lparen,"("⟩]⟩ := by
  have hs := (@reads_safely_by_index [⟨.letKeyword,"let"⟩,⟨.ident,"x"⟩,⟨.equal,"="⟩,⟨.rparen,")"⟩,
    ⟨.lparen,"("⟩] (by decide)).1.completes
  rw [Traced.Completes] at hs
  rw [hs]
  cbv

end LetPrint
