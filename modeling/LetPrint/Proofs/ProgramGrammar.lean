import LetPrint.Proofs.Statements

set_option autoImplicit false

namespace LetPrint

/-- What a chunk says. Between the name of a definition and the first equal sign any tokens may
stand. -/
inductive IsStatement : List Token → Stmt → Prop where
  | print {keyword : Token} {rest : List Token} {value : Expr} :
      keyword.kind = .printKeyword → (parseExpr rest).result = .ok value →
      IsStatement (keyword :: rest) (.print value)
  | define {keyword name equal : Token} {between rest : List Token} {value : Expr} :
      keyword.kind = .letKeyword → name.kind = .ident → (∀ t ∈ between, t.kind ≠ .equal) →
      equal.kind = .equal → (parseExpr rest).result = .ok value →
      IsStatement (keyword :: name :: (between ++ equal :: rest)) (.define name.text value)

variable {ts : List Token} {s : Stmt} {p : Program}

theorem result_parseStatement_eq_ok_iff_isStatement :
    (parseStatement ts).result = .ok s ↔ IsStatement ts s := by
  rw [result_parseStatement_eq_ok_iff]
  refine ⟨?_,?_⟩
  · rintro ⟨first,rest,rfl,⟨hk,h⟩ | ⟨hk,h⟩⟩
    · obtain ⟨value,hv,rfl⟩ := result_parsePrint_eq_ok_iff.1 h
      exact .print hk hv
    · obtain ⟨_,name,between,equal,rest,value,hts,hn,he,hb,hv,rfl⟩ :=
        result_parseDefine_eq_ok_iff.1 h
      obtain ⟨rfl,rfl⟩ := List.cons.inj hts
      exact .define hk hn hb he hv
  · intro h
    cases h with
    | print hk hv => exact ⟨_,_,rfl,.inl ⟨hk,result_parsePrint_eq_ok_iff.2 ⟨_,hv,rfl⟩⟩⟩
    | define hk hn hb he hv =>
      refine ⟨_,_,rfl,.inr ⟨hk,?_⟩⟩
      exact result_parseDefine_eq_ok_iff.2 ⟨_,_,_,_,_,_,rfl,hn,he,hb,hv,rfl⟩

theorem IsStatement.ne_nil (h : IsStatement ts s) : ts ≠ [] := by cases h <;> simp

theorem result_parseProgram_eq_ok_iff_isStatement :
    (parseProgram ts).result = .ok p ↔
      ts ≠ [] ∧ List.Forall₂ IsStatement (chunks .semicolon none ts) p.body := by
  simp only [result_parseProgram_eq_ok_iff,result_parseStatement_eq_ok_iff_isStatement]

theorem nil_not_mem_of_forall₂_isStatement {pieces : List (List Token)} {body : List Stmt}
    (h : List.Forall₂ IsStatement pieces body) : [] ∉ pieces := by
  induction h with
  | nil => simp
  | cons hs _ ih => simp [ih,hs.ne_nil.symm]

theorem result_parseProgram_eq_ok_iff_delimited :
    (parseProgram ts).result = .ok p ↔ ∃ pieces, Delimited .semicolon pieces ts ∧
      (∀ piece ∈ pieces, ∀ t ∈ piece, t.kind ≠ .semicolon) ∧
        List.Forall₂ IsStatement pieces p.body := by
  rw [result_parseProgram_eq_ok_iff_isStatement]
  refine ⟨?_,?_⟩
  · rintro ⟨hn,h⟩
    exact ⟨_,delimited_chunks hn,fun _ => free_of_mem_chunks_none,h⟩
  · rintro ⟨pieces,hd,hf,h⟩
    obtain ⟨hn,hc⟩ := hd.chunks_none hf (nil_not_mem_of_forall₂_isStatement h)
    exact ⟨hn,hc ▸ h⟩

theorem size_of_result_parseProgram (h : (parseProgram ts).result = .ok p) :
    p.size = ts.countP (fun t => t.kind == .semicolon) + if endsIn .semicolon ts then 0 else 1 := by
  obtain ⟨hn,hf⟩ := result_parseProgram_eq_ok_iff_isStatement.1 h
  rw [← length_chunks_none hn,hf.length_eq,Program.size]

theorem nil_mem_chunks_of_semicolon {before after : List Token} {t : Token}
    (ht : t.kind = .semicolon) (h : before = [] ∨ endsIn .semicolon before = true) :
    [] ∈ chunks .semicolon none (before ++ t :: after) := by
  have hc : chunks .semicolon none (t :: after) = [] :: chunks .semicolon none after :=
    @chunks_none_of_first .semicolon [] after t (by simp) ht
  rw [chunks_none_append _ h,hc]
  simp

theorem exists_error_of_nil_mem (h : [] ∈ chunks .semicolon none ts) :
    ∃ e, (parseProgram ts).result = .error e := by
  cases hr : (parseProgram ts).result with
  | error e => exact ⟨e,rfl⟩
  | ok p =>
    obtain ⟨-,hf⟩ := result_parseProgram_eq_ok_iff_isStatement.1 hr
    exact absurd h (nil_not_mem_of_forall₂_isStatement hf)

/-- A list is read as a program exactly if it consists of chunks without semicolons that are the
statements of the program in order. Such a program is not empty and has as many statements as there
are semicolons, and one more unless a semicolon comes last; an empty chunk is always an error. -/
theorem parseProgram_eq_ok_iff_statements (ts : List Token) :
    (∀ p, (parseProgram ts).result = .ok p ↔ ∃ pieces, Delimited .semicolon pieces ts ∧
      (∀ piece ∈ pieces, ∀ t ∈ piece, t.kind ≠ .semicolon) ∧
        List.Forall₂ IsStatement pieces p.body) ∧
    (∀ p, (parseProgram ts).result = .ok p → p.body ≠ [] ∧
      p.size = ts.countP (fun t => t.kind == .semicolon) +
        if endsIn .semicolon ts then 0 else 1) ∧
    (ts = [] ∨ (∃ before t after, ts = before ++ t :: after ∧ t.kind = .semicolon ∧
        (before = [] ∨ endsIn .semicolon before = true)) →
      ∃ e, (parseProgram ts).result = .error e) := by
  refine ⟨fun p => result_parseProgram_eq_ok_iff_delimited,?_,?_⟩
  · intro p h
    exact ⟨body_ne_nil_of_result_parseProgram h,size_of_result_parseProgram h⟩
  · rintro (rfl | ⟨before,t,after,rfl,ht,hb⟩)
    · exact ⟨_,rfl⟩
    · exact exists_error_of_nil_mem (nil_mem_chunks_of_semicolon ht hb)

theorem parseProgram_of_two_statements :
    (parseProgram [⟨.printKeyword,"print"⟩,⟨.ident,"x"⟩,⟨.semicolon,";"⟩,⟨.letKeyword,"let"⟩,
      ⟨.ident,"y"⟩,⟨.ident,"z"⟩,⟨.equal,"="⟩,⟨.ident,"x"⟩,⟨.semicolon,";"⟩]).result =
      .ok ⟨[.print (.identifier "x"),.define "y" (.identifier "x")]⟩ ∧
    Program.size ⟨[.print (.identifier "x"),.define "y" (.identifier "x")]⟩ = 2 + 0 := by
  have hx : (parseExpr [⟨.ident,"x"⟩]).result = .ok (.identifier "x") := by cbv
  obtain ⟨hiff,hsize,-⟩ := parseProgram_eq_ok_iff_statements
    [⟨.printKeyword,"print"⟩,⟨.ident,"x"⟩,⟨.semicolon,";"⟩,⟨.letKeyword,"let"⟩,⟨.ident,"y"⟩,
      ⟨.ident,"z"⟩,⟨.equal,"="⟩,⟨.ident,"x"⟩,⟨.semicolon,";"⟩]
  have hp := (hiff ⟨[.print (.identifier "x"),.define "y" (.identifier "x")]⟩).2
    ⟨[[⟨.printKeyword,"print"⟩,⟨.ident,"x"⟩],[⟨.letKeyword,"let"⟩,⟨.ident,"y"⟩,⟨.ident,"z"⟩,
        ⟨.equal,"="⟩,⟨.ident,"x"⟩]],
      .more rfl (.closed rfl),by decide,
      .cons (.print rfl hx) (.cons (@IsStatement.define ⟨.letKeyword,"let"⟩ ⟨.ident,"y"⟩
        ⟨.equal,"="⟩ [⟨.ident,"z"⟩] _ _ rfl rfl (by decide) rfl hx) .nil)⟩
  exact ⟨hp,(hsize _ hp).2⟩

end LetPrint
