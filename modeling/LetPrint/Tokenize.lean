import LetPrint.Lexeme
import LetPrint.Traced

set_option autoImplicit false

namespace LetPrint

def tokenize (source : String) : Traced (List Token) :=
  let scanned := Lexeme.scan source.toList
  let tokens := scanned.1.filterMap Lexeme.token?
  do
    Traced.emitAll (tokens.map .lexed)
    match scanned.2 with
    | [] =>
      Traced.emit (.tokenized tokens.length)
      pure tokens
    | c :: _ => Traced.fail (.unrecognised (String.singleton c)) []

theorem result_tokenize (source : String) :
    (tokenize source).result =
      match (Lexeme.scan source.toList).2 with
      | [] => .ok ((Lexeme.scan source.toList).1.filterMap Lexeme.token?)
      | c :: _ => .error ⟨.unrecognised (String.singleton c),[]⟩ := by
  simp only [tokenize,Traced.result_bind,Traced.result_emitAll,Except.bind]
  split <;> rfl

end LetPrint
