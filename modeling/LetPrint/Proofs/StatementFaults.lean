import LetPrint.Proofs.Concatenation
import LetPrint.Proofs.FaultRange

set_option autoImplicit false

namespace LetPrint

/-- What a chunk lacks: a first token, a keyword, a name after `let`, or an equal sign after the
name with a token behind it. -/
inductive Misshapen : StatementFault → List Token → Prop where
  | empty : Misshapen .empty []
  | keyword {first : Token} {rest : List Token} :
      first.kind ≠ .letKeyword → first.kind ≠ .printKeyword →
      Misshapen (.unknownKeyword first.text) (first :: rest)
  | name {keyword : Token} {rest : List Token} :
      keyword.kind = .letKeyword → (∀ t ∈ rest.head?, t.kind ≠ .ident) →
      Misshapen .missingName (keyword :: rest)
  | equal {keyword name : Token} {rest : List Token} :
      keyword.kind = .letKeyword → name.kind = .ident → (∀ t ∈ rest, t.kind ≠ .equal) →
      Misshapen .missingValue (keyword :: name :: rest)
  | value {keyword name equal : Token} {between : List Token} :
      keyword.kind = .letKeyword → name.kind = .ident → (∀ t ∈ between, t.kind ≠ .equal) →
      equal.kind = .equal → Misshapen .missingValue (keyword :: name :: (between ++ [equal]))

/-- The value of a chunk: what follows `print`, or what follows the first equal sign after the name
of a definition. -/
inductive HasValue : List Token → List Token → Prop where
  | print {keyword : Token} {value : List Token} :
      keyword.kind = .printKeyword → HasValue (keyword :: value) value
  | define {keyword name equal : Token} {between value : List Token} :
      keyword.kind = .letKeyword → name.kind = .ident → (∀ t ∈ between, t.kind ≠ .equal) →
      equal.kind = .equal → value ≠ [] →
      HasValue (keyword :: name :: (between ++ equal :: value)) value

section Chunks

variable {c value rest : List Token} {keyword name : Token} {fault : StatementFault}
  {e : SyntaxError}

theorem misshapen_or_hasValue (c : List Token) :
    (∃ fault, Misshapen fault c) ∨ ∃ value, HasValue c value := by
  match c with
  | [] => exact .inl ⟨_,.empty⟩
  | first :: rest =>
    by_cases hp : first.kind = .printKeyword
    · exact .inr ⟨rest,.print hp⟩
    by_cases hl : first.kind = .letKeyword
    · by_cases hh : ∀ t ∈ rest.head?, t.kind ≠ .ident
      · exact .inl ⟨_,.name hl hh⟩
      · obtain ⟨name,rest,rfl,hn⟩ : ∃ name more, rest = name :: more ∧ name.kind = .ident := by
          cases rest <;> simp_all
        rcases free_or_exists_first .equal rest with hf | ⟨between,equal,value,rfl,he,hb⟩
        · exact .inl ⟨_,.equal hl hn hf⟩
        · cases value with
          | nil => exact .inl ⟨_,.value hl hn hb he⟩
          | cons t value => exact .inr ⟨t :: value,.define hl hn hb he (by simp)⟩
    · exact .inl ⟨_,.keyword hl hp⟩

theorem HasValue.isSuffix (h : HasValue c value) : value <:+ c ∧ value.length < c.length := by
  cases h with
  | @print keyword value _ => exact ⟨⟨[keyword],rfl⟩,by simp⟩
  | @define keyword name equal between value =>
    exact ⟨⟨keyword :: name :: (between ++ [equal]),by simp⟩,by simp; omega⟩

theorem parseStatement_of_let (hk : keyword.kind = .letKeyword) :
    parseStatement (keyword :: rest) = parseDefine (keyword :: rest) := by
  simp [parseStatement,hk]

theorem result_parseDefine_of_one_chunk {piece : List Token} (hn : name.kind = .ident)
    (hc : chunks .equal (some 2) (name :: rest) = [piece]) :
    (parseDefine (keyword :: name :: rest)).result =
      .error ⟨.statement .missingValue,keyword :: name :: rest⟩ := by
  have hd : definedName? (keyword :: name :: rest) = some name.text := by simp [definedName?,hn]
  simp [parseDefine,hd,hc,Traced.result_bind,Except.bind]

theorem result_parseDefine_of_two_chunks {before : List Token} (hn : name.kind = .ident)
    (hc : chunks .equal (some 2) (name :: rest) = [before,value]) :
    (parseDefine (keyword :: name :: rest)).result = .error e ↔
      (parseExpr value).result = .error e := by
  have hd : definedName? (keyword :: name :: rest) = some name.text := by simp [definedName?,hn]
  simp only [parseDefine,hd,List.drop_one,List.tail_cons,hc,Traced.result_bind,Traced.result_emit,
    Traced.result_pure,Except.bind]
  cases (parseExpr value).result <;> simp

theorem Misshapen.result_parseStatement (h : Misshapen fault c) :
    (parseStatement c).result = .error ⟨.statement fault,c⟩ := by
  cases h with
  | empty => rfl
  | @keyword first rest hl hp => cases hk : first.kind <;> simp_all [parseStatement]
  | @name keyword rest hk hn =>
    rw [parseStatement_of_let hk,parseDefine]
    have hd : definedName? (keyword :: rest) = none := by
      cases rest <;> simp_all [definedName?]
    rw [hd]; rfl
  | @equal keyword name rest hk hn he =>
    have hc : chunks .equal (some 2) (name :: rest) = [name :: rest] := by
      rw [chunks,cutAt_of_free (by simpa [hn] using he),lastChunk_of_ne_nil (by simp)]
    rw [parseStatement_of_let hk]
    exact result_parseDefine_of_one_chunk hn hc
  | @value keyword name equal between hk hn hb he =>
    have hc : chunks .equal (some 2) (name :: between ++ [equal]) = [name :: between] :=
      chunks_two_of_first (by simpa [hn] using hb) he
    rw [parseStatement_of_let hk]
    exact result_parseDefine_of_one_chunk hn hc

theorem HasValue.result_parseStatement (h : HasValue c value) :
    (parseStatement c).result = .error e ↔ (parseExpr value).result = .error e := by
  cases h with
  | print hk =>
    simp only [parseStatement,hk,parsePrint,List.drop_one,List.tail_cons,Traced.result_bind]
    cases (parseExpr value).result <;> simp [Except.bind]
  | @define keyword name equal between value hk hn hb he hv =>
    have hc : chunks .equal (some 2) (name :: between ++ equal :: value) =
        [name :: between,value] :=
      chunks_two_eq_iff.2 ⟨hv,by simpa [hn] using hb,equal,he,rfl⟩
    rw [parseStatement_of_let hk]
    exact result_parseDefine_of_two_chunks hn hc

theorem cases_of_parseStatement_error (h : (parseStatement c).result = .error e) :
    (∃ fault, Misshapen fault c ∧ e = ⟨.statement fault,c⟩) ∨
      ∃ value, HasValue c value ∧ (parseExpr value).result = .error e := by
  rcases misshapen_or_hasValue c with ⟨fault,hm⟩ | ⟨value,hv⟩
  · exact .inl ⟨fault,hm,Except.error.inj (h.symm.trans hm.result_parseStatement)⟩
  · exact .inr ⟨value,hv,hv.result_parseStatement.1 h⟩

theorem LocatedIn.not_statement {ts : List Token} {pairs : Nat} (h : LocatedIn ts pairs e)
    (fault : StatementFault) : e.fault ≠ .statement fault := by cases h <;> simp

theorem LocatedIn.fault_cases {ts : List Token} {pairs : Nat} (h : LocatedIn ts pairs e) :
    (∃ fault, e.fault = .expression fault) ∨ (∃ text, e.fault = .number text) ∨
      e.fault = .nesting nestingLimit := by cases h <;> simp

/-- How a chunk is at fault: all of it is reported if it lacks something, and in any other case the
error is the one of its value. -/
structure ChunkFault (c : List Token) (e : SyntaxError) : Prop where
  fails : (parseStatement c).result = .error e
  isInfix : e.tokens <:+: c
  whole_iff : e.tokens = c ↔ ∃ fault, e.fault = .statement fault
  statement_iff : ∀ fault, e.fault = .statement fault ↔ Misshapen fault c
  otherwise : (∀ fault, e.fault ≠ .statement fault) →
    ((∃ fault, e.fault = .expression fault) ∨ (∃ text, e.fault = .number text) ∨
      e.fault = .nesting nestingLimit) ∧
    ∃ value, HasValue c value ∧ (parseExpr value).result = .error e

theorem chunkFault_of_parseStatement (h : (parseStatement c).result = .error e) :
    ChunkFault c e := by
  have hmis : ∀ fault, Misshapen fault c → e = ⟨.statement fault,c⟩ :=
    fun fault hm => Except.error.inj (h.symm.trans hm.result_parseStatement)
  rcases cases_of_parseStatement_error h with ⟨fault,hm,rfl⟩ | ⟨value,hv,he⟩
  · refine ⟨h,List.infix_rfl,by simp,?_,fun hn => absurd rfl (hn fault)⟩
    intro fault'
    refine ⟨?_,fun hm' => congrArg SyntaxError.fault (hmis fault' hm')⟩
    intro hf
    obtain rfl := Fault.statement.inj hf
    exact hm
  · have hl := locatedIn_of_parseExpr he
    obtain ⟨hs,hlt⟩ := hv.isSuffix
    refine ⟨h,hl.isInfix.trans hs.isInfix,?_,?_,fun _ => ⟨hl.fault_cases,value,hv,he⟩⟩
    · -- the value is shorter than the chunk, so no part of it is the chunk
      have hle := hl.isInfix.length_le
      refine ⟨?_,?_⟩
      · intro hc
        rw [hc] at hle
        omega
      · rintro ⟨fault,hf⟩
        exact absurd hf (hl.not_statement fault)
    · intro fault
      exact ⟨fun hf => absurd hf (hl.not_statement fault),
        fun hm => congrArg SyntaxError.fault (hmis fault hm)⟩

end Chunks

section Programs

theorem map_eq_error_iff {ε α β : Type} {x : Except ε α} {f : α → β} {e : ε} :
    x.map f = .error e ↔ x = .error e := by cases x <;> simp [Except.map]

theorem mapM_eq_error_iff {ε α β : Type} {f : α → Except ε β} {as : List α} {e : ε} :
    as.mapM f = .error e ↔ ∃ front a back, as = front ++ a :: back ∧
      (∀ b ∈ front, ∃ x, f b = .ok x) ∧ f a = .error e := by
  induction as with
  | nil => simp [Pure.pure,Except.pure]
  | cons a as ih =>
    have hcons : (a :: as).mapM f = .error e ↔
        f a = .error e ∨ (∃ x, f a = .ok x) ∧ as.mapM f = .error e := by
      rw [List.mapM_cons]
      cases f a <;> cases as.mapM f <;> simp [Bind.bind,Except.bind,Pure.pure,Except.pure]
    rw [hcons,ih]
    refine ⟨?_,?_⟩
    · rintro (ha | ⟨ha,front,b,back,rfl,hf,hb⟩)
      · exact ⟨[],a,as,rfl,by simp,ha⟩
      · exact ⟨a :: front,b,back,rfl,List.forall_mem_cons.2 ⟨ha,hf⟩,hb⟩
    · rintro ⟨front,b,back,hs,hf,hb⟩
      cases front with
      | nil =>
        obtain ⟨rfl,-⟩ := List.cons.inj hs
        exact .inl hb
      | cons c front =>
        obtain ⟨rfl,rfl⟩ := List.cons.inj hs
        obtain ⟨ha,hf⟩ := List.forall_mem_cons.1 hf
        exact .inr ⟨ha,front,b,back,rfl,hf,hb⟩

variable {ts : List Token} {e : SyntaxError}

theorem result_parseProgram_eq_error_iff (hn : ts ≠ []) :
    (parseProgram ts).result = .error e ↔ ∃ front c back,
      chunks .semicolon none ts = front ++ c :: back ∧
      (∀ piece ∈ front, ∃ s, (parseStatement piece).result = .ok s) ∧
      (parseStatement c).result = .error e := by
  rw [result_parseProgram hn,map_eq_error_iff,statementsOf,mapM_eq_error_iff]

theorem cases_of_parseProgram_error (h : (parseProgram ts).result = .error e) :
    e = ⟨.statement .noStatements,[]⟩ ∨
      (∃ fault c, c ⊆ ts ∧ Misshapen fault c ∧ e = ⟨.statement fault,c⟩) ∨
      ∃ value, value ⊆ ts ∧ LocatedIn value (nestingLimit+1) e := by
  by_cases hn : ts = []
  · rw [hn] at h
    exact .inl (Except.error.inj h).symm
  · obtain ⟨front,c,back,hc,-,he⟩ := (result_parseProgram_eq_error_iff hn).1 h
    have hsub : c ⊆ ts := subset_of_mem_cutAt (show c ∈ chunks .semicolon none ts by simp [hc])
    rcases cases_of_parseStatement_error he with ⟨fault,hm,rfl⟩ | ⟨value,hv,he⟩
    · exact .inr (.inl ⟨fault,c,hsub,hm,rfl⟩)
    · have hvalue := List.Subset.trans hv.isSuffix.1.subset hsub
      exact .inr (.inr ⟨value,hvalue,locatedIn_of_parseExpr he⟩)

/-- An error of a program that is not empty is the error of its first chunk at fault. -/
theorem parseProgram_error_of_first_chunk (hn : ts ≠ [])
    (h : (parseProgram ts).result = .error e) :
    ∃ front c back, chunks .semicolon none ts = front ++ c :: back ∧
      (∀ piece ∈ front, ∃ s, (parseStatement piece).result = .ok s) ∧ ChunkFault c e ∧
      ∀ t ∈ e.tokens, t.kind ≠ .semicolon := by
  obtain ⟨front,c,back,hc,hf,he⟩ := (result_parseProgram_eq_error_iff hn).1 h
  have hcf := chunkFault_of_parseStatement he
  refine ⟨front,c,back,hc,hf,hcf,?_⟩
  intro t ht
  exact free_of_mem_chunks_none (by rw [hc]; simp) t (hcf.isInfix.subset ht)

theorem parseProgram_error_of_first_chunk_second :
    ∃ front c back, chunks .semicolon none [⟨.printKeyword,"print"⟩,⟨.ident,"x"⟩,⟨.semicolon,";"⟩,
        ⟨.letKeyword,"let"⟩,⟨.ident,"y"⟩,⟨.semicolon,";"⟩,⟨.ident,"z"⟩] = front ++ c :: back ∧
      (∀ piece ∈ front, ∃ s, (parseStatement piece).result = .ok s) ∧
      ChunkFault c ⟨.statement .missingValue,[⟨.letKeyword,"let"⟩,⟨.ident,"y"⟩]⟩ ∧
      ∀ t ∈ ([⟨.letKeyword,"let"⟩,⟨.ident,"y"⟩] : List Token), t.kind ≠ .semicolon := by
  refine parseProgram_error_of_first_chunk (by simp) ?_
  cbv

end Programs

end LetPrint
