import LetPrint.Parse.Expr
import LetPrint.Program
import LetPrint.Range.Chunk

set_option autoImplicit false

namespace LetPrint

def definedName? : List Token → Option String
  | _ :: t :: _ => if t.kind = .ident then some t.text else none
  | _ => none

/-- A name, an equal sign and a value after the first token. Equal signs in the value stay there. -/
def parseDefine (ts : List Token) : Traced Stmt :=
  match definedName? ts with
  | none => Traced.fail (.statement .missingName) ts
  | some name =>
    let pieces := chunks .equal (some 2) (ts.drop 1)
    do
      Traced.emit (.chunked .equal pieces.length)
      match pieces with
      | [_,value] => return .define name (← parseExpr value)
      | _ => Traced.fail (.statement .missingValue) ts

def parsePrint (ts : List Token) : Traced Stmt := do
  return .print (← parseExpr (ts.drop 1))

def parseStatement (ts : List Token) : Traced Stmt :=
  match ts with
  | [] => Traced.fail (.statement .empty) ts
  | first :: _ =>
    match first.kind with
    | .letKeyword => parseDefine ts
    | .printKeyword => parsePrint ts
    | _ => Traced.fail (.statement (.unknownKeyword first.text)) ts

end LetPrint
