import LetPrint.Proofs.Statements

set_option autoImplicit false

namespace LetPrint

/-- One program after another. An error of the first comes before one of the second. -/
def Program.andThen :
    Except SyntaxError Program → Except SyntaxError Program → Except SyntaxError Program
  | .error e, _ => .error e
  | .ok _, .error e => .error e
  | .ok p, .ok q => .ok ⟨p.body ++ q.body⟩

theorem Traced.result_mapM {α β : Type} (f : α → Traced β) (as : List α) :
    (as.mapM f).result = as.mapM fun a => (f a).result := by
  induction as with
  | nil => rfl
  | cons a as ih =>
    simp only [List.mapM_cons,result_bind,result_pure,ih]
    rfl

variable {ts as bs : List Token}

def statementsOf (pieces : List (List Token)) : Except SyntaxError (List Stmt) :=
  pieces.mapM fun piece => (parseStatement piece).result

theorem result_parseProgram (hn : ts ≠ []) :
    (parseProgram ts).result = (statementsOf (chunks .semicolon none ts)).map Program.mk := by
  rw [parseProgram,if_neg hn,statementsOf,← Traced.result_mapM]
  simp only [Traced.result_bind,Traced.result_emit,Traced.result_pure,Except.bind]
  cases ((chunks .semicolon none ts).mapM parseStatement).result <;> rfl

theorem map_statementsOf_append (front back : List (List Token)) :
    (statementsOf (front ++ back)).map Program.mk =
      Program.andThen ((statementsOf front).map Program.mk)
        ((statementsOf back).map Program.mk) := by
  rw [statementsOf,List.mapM_append,← statementsOf,← statementsOf]
  cases statementsOf front with
  | error e => rfl
  | ok body => cases statementsOf back <;> rfl

theorem result_parseProgram_append (h : endsIn .semicolon as = true) (hb : bs ≠ []) :
    (parseProgram (as ++ bs)).result =
      Program.andThen (parseProgram as).result (parseProgram bs).result := by
  have ha : as ≠ [] := by
    rintro rfl
    cases h
  rw [result_parseProgram (List.append_ne_nil_of_left_ne_nil ha bs),result_parseProgram ha,
    result_parseProgram hb,chunks_none_append bs (.inr h),map_statementsOf_append]

theorem result_parseProgram_concat {m : Token} (hm : m.kind = .semicolon) (ha : as ≠ [])
    (h : endsIn .semicolon as = false) :
    (parseProgram (as ++ [m])).result = (parseProgram as).result := by
  rw [result_parseProgram (by simp),result_parseProgram ha,chunks_none_concat hm ha h]

/-- A list that does not end in a semicolon may be followed by one, and by another list after it; a
list that does may be followed by another one at once. The whole is read as the first list and then
the second. -/
theorem parseProgram_seq {a b : List Token} {m : Token} (ha : a ≠ []) (hb : b ≠ [])
    (hm : m.kind = .semicolon) :
    (endsIn .semicolon a = false →
      (parseProgram (a ++ [m] ++ b)).result =
          Program.andThen (parseProgram a).result (parseProgram b).result ∧
        (parseProgram (a ++ [m])).result = (parseProgram a).result) ∧
    (endsIn .semicolon a = true → (parseProgram (a ++ b)).result =
      Program.andThen (parseProgram a).result (parseProgram b).result) := by
  refine ⟨?_,fun h => result_parseProgram_append h hb⟩
  intro h
  have hc := result_parseProgram_concat hm ha h
  have hw : endsIn .semicolon (a ++ [m]) = true := by simp [hm]
  exact ⟨by rw [result_parseProgram_append hw hb,hc],hc⟩

/-- The first half is right, so the error is the one of the second half alone. -/
theorem parseProgram_seq_second_error :
    (parseProgram ([⟨.printKeyword,"print"⟩,⟨.ident,"x"⟩] ++ [⟨.semicolon,";"⟩] ++
      [⟨.letKeyword,"let"⟩,⟨.semicolon,";"⟩,⟨.printKeyword,"print"⟩])).result =
      .error ⟨.statement .missingName,[⟨.letKeyword,"let"⟩]⟩ := by
  have ha : (parseProgram [⟨.printKeyword,"print"⟩,⟨.ident,"x"⟩]).result =
      .ok ⟨[.print (.identifier "x")]⟩ := by cbv
  have hb : (parseProgram [⟨.letKeyword,"let"⟩,⟨.semicolon,";"⟩,⟨.printKeyword,"print"⟩]).result =
      .error ⟨.statement .missingName,[⟨.letKeyword,"let"⟩]⟩ := by cbv
  obtain ⟨hs,-⟩ := (@parseProgram_seq [⟨.printKeyword,"print"⟩,⟨.ident,"x"⟩]
    [⟨.letKeyword,"let"⟩,⟨.semicolon,";"⟩,⟨.printKeyword,"print"⟩] ⟨.semicolon,";"⟩
    (by simp) (by simp) rfl).1 rfl
  rw [hs,ha,hb]
  rfl

end LetPrint
