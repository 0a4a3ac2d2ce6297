import LetPrint.Binary64.Reading
import LetPrint.Expr
import LetPrint.Parse.Chain
import LetPrint.Parse.Form
import LetPrint.Traced

/-!
Reading a token range as an expression. A literal is read by itself, a group through its interior,
and any other range with an operator through its chain: the first operand, then the operand of each
link, folded from the left. Only groups count towards the nesting limit, so a chain may be of any
length.
-/

set_option autoImplicit false

namespace LetPrint

def nestingLimit : Nat := 256

def parsePrimary (t : Token) : Except SyntaxError Expr :=
  match t.kind with
  | .number =>
    match Binary64.read? t.text with
    | some x => if x.isFinite then .ok (.number x) else .error ⟨.number t.text,[t]⟩
    | none => .error ⟨.number t.text,[t]⟩
  | .ident => .ok (.identifier t.text)
  | _ => .error ⟨.expression .notAnOperand,[t]⟩

mutual

/-- The expression of a range inside `depth` groups. -/
def parseExprAt (depth : Nat) (ts : List Token) : Traced Expr :=
  if nestingLimit < depth then Traced.fail (.nesting nestingLimit) ts
  else match h : Form.ofRange ts with
    | .literal t => Traced.ofResult (parsePrimary t)
    | .group inner =>
      have := Form.length_lt_of_ofRange h
      do
        Traced.emit (.unwrapped depth)
        parseExprAt (depth+1) inner
    | .operation => parseChainAt depth ts
    | .missing => Traced.fail (.expression .missingOperand) ts
    | .formless => Traced.fail (.expression .formless) ts
termination_by (ts.length,2)
decreasing_by
  · exact Prod.Lex.left _ _ this
  · exact Prod.Lex.right _ (by omega)

def parseChainAt (depth : Nat) (ts : List Token) : Traced Expr :=
  match h : Chain.ofRange ts with
  | .error fault => Traced.fail (.expression fault) ts
  | .ok chain =>
    have := Chain.shorter_of_ofRange h
    do
      Traced.emitAll chain.found
      Traced.emit (.chained chain.tier chain.links.length depth)
      let first ← parseExprAt depth chain.first
      parseLinks depth first chain.links
termination_by (ts.length,1)
decreasing_by
  · exact Prod.Lex.left _ _ this.1
  · rcases Nat.lt_or_eq_of_le this.2 with hl | hl
    · exact Prod.Lex.left _ _ hl
    · rw [hl]; exact Prod.Lex.right _ (by omega)

def parseLinks (depth : Nat) (left : Expr) (links : List Link) : Traced Expr :=
  match links with
  | [] => pure left
  | link :: links => do
    let right ← parseExprAt depth link.operand
    parseLinks depth (.binary link.operator left right) links
termination_by (Link.total links,0)
decreasing_by
  · exact Prod.Lex.left _ _ (by simp only [Link.total]; omega)
  · exact Prod.Lex.left _ _ (by simp only [Link.total]; omega)

end

def parseExpr (ts : List Token) : Traced Expr := parseExprAt 0 ts

/-- The expression of a range that is taken to be a chain, whatever its form. -/
def parseBinary (ts : List Token) : Traced Expr := parseChainAt 0 ts

end LetPrint
