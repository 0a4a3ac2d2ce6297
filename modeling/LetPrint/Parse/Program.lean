import LetPrint.Parse.Statement
import LetPrint.Tokenize

set_option autoImplicit false

namespace LetPrint

def parseProgram (ts : List Token) : Traced Program :=
  if ts = [] then Traced.fail (.statement .noStatements) []
  else
    let pieces := chunks .semicolon none ts
    do
      Traced.emit (.chunked .semicolon pieces.length)
      let body ← pieces.mapM parseStatement
      Traced.emit (.parsed ts.length body.length)
      return ⟨body⟩

def parseSource (source : String) : Traced Program := tokenize source >>= parseProgram

theorem result_parseSource (source : String) :
    (parseSource source).result =
      (tokenize source).result.bind fun ts => (parseProgram ts).result :=
  Traced.result_bind _ _

end LetPrint
