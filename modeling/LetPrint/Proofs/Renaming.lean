import LetPrint.Proofs.Concatenation

/-!
What the texts of tokens are good for. A map of tokens that keeps their kinds and the texts of
numerals keeps every decision of the parser: the ranges are cut at the same places, and the trees
differ in the names alone. Where the names go through one function, so do the names of the program,
and an error is the same error on the changed tokens.
-/

set_option autoImplicit false

namespace LetPrint

section Names

variable (ρ : String → String)

def Expr.rename : Expr → Expr
  | number x => number x
  | identifier name => identifier (ρ name)
  | binary op l r => binary op l.rename r.rename

def Stmt.rename : Stmt → Stmt
  | define name value => define (ρ name) (value.rename ρ)
  | print value => print (value.rename ρ)

def Program.rename (p : Program) : Program := ⟨p.body.map (Stmt.rename ρ)⟩

end Names

/-- Names go through `ρ`, kinds and numerals stay, and any other text may become any text. -/
structure Recasts (ρ : String → String) (φ : Token → Token) : Prop where
  kind : ∀ t, (φ t).kind = t.kind
  number : ∀ t, t.kind = .number → (φ t).text = t.text
  ident : ∀ t, t.kind = .ident → (φ t).text = ρ t.text

/-- The map that sends names through `ρ` and gives the tokens without a meaning of their own the
texts `other`. -/
def Token.recast (ρ : String → String) (other : Token → String) (t : Token) : Token :=
  ⟨t.kind,match t.kind with
    | .number => t.text
    | .ident => ρ t.text
    | _ => other t⟩

theorem recasts_recast (ρ : String → String) (other : Token → String) :
    Recasts ρ (Token.recast ρ other) := by
  refine ⟨fun _ => rfl,?_,?_⟩
  · intro t ht
    simp only [Token.recast,ht]
  · intro t ht
    simp only [Token.recast,ht]

/-- The error on the changed tokens. Only the word that is found in place of a keyword is shown in
the fault itself, and it is the text of the first token. -/
def SyntaxError.recast (φ : Token → Token) (e : SyntaxError) : SyntaxError :=
  ⟨match e.fault, e.tokens with
    | .statement (.unknownKeyword _), first :: _ => .statement (.unknownKeyword (φ first).text)
    | fault, _ => fault,
   e.tokens.map φ⟩

def recastResult {α β : Type} (φ : Token → Token) (f : α → β) :
    Except SyntaxError α → Except SyntaxError β
  | .ok a => .ok (f a)
  | .error e => .error (e.recast φ)

theorem SyntaxError.name_recast (φ : Token → Token) (e : SyntaxError) :
    (e.recast φ).name = e.name := by
  obtain ⟨fault,tokens⟩ := e
  unfold recast; split
  · rename_i hf ht
    cases hf; rfl
  · rfl

section Kinds

variable {φ : Token → Token} (hk : ∀ t, (φ t).kind = t.kind)

def Split.map (φ : Token → Token) (s : Split) : Split :=
  ⟨s.left.map φ,φ s.operator,s.right.map φ⟩

def Form.map (φ : Token → Token) : Form → Form
  | literal t => literal (φ t)
  | group inner => group (inner.map φ)
  | operation => operation
  | missing => missing
  | formless => formless

include hk

theorem Split.search_map (kinds : List TokenKind) (depth : Int) (right before : List Token) :
    search kinds depth (right.map φ) (before.map φ) =
      (search kinds depth right before).map (Split.map φ) := by
  induction before generalizing depth right with
  | nil => rfl
  | cons t before ih =>
    have hc : cutsAt kinds depth (φ t) = cutsAt kinds depth t := by simp only [cutsAt,hk]
    simp only [List.map_cons,search,hc,hk]
    split
    · simp [Split.map]
    · exact ih (depth - t.kind.nesting) (t :: right)

theorem Split.rightmost?_map (kinds : List TokenKind) (ts : List Token) :
    rightmost? kinds (ts.map φ) = (rightmost? kinds ts).map (Split.map φ) := by
  rw [rightmost?,← List.map_reverse]
  exact search_map hk kinds 0 [] ts.reverse

theorem Split.outermost?_map (ts : List Token) :
    outermost? (ts.map φ) = (outermost? ts).map (Split.map φ) := by
  simp only [outermost?,rightmost?_map hk]
  induction Tier.all with
  | nil => rfl
  | cons tier tiers ih =>
    simp only [List.findSome?_cons]
    cases rightmost? tier.operators ts with
    | none => exact ih
    | some s => rfl

theorem closesLast_map (depth : Int) (ts : List Token) :
    closesLast depth (ts.map φ) = closesLast depth ts := by
  induction ts generalizing depth with
  | nil => rfl
  | cons t ts ih =>
    cases ts with
    | nil => simp only [List.map_cons,List.map_nil,closesLast,hk]
    | cons u us =>
      simp only [List.map_cons] at ih ⊢
      simp only [closesLast,hk,ih]

theorem isGroup_map (ts : List Token) : isGroup (ts.map φ) = isGroup ts := by
  simp only [isGroup,closesLast_map hk,List.head?_map,List.getLast?_map,Option.any_map,hk]

theorem loneLiteral?_map (ts : List Token) :
    loneLiteral? (ts.map φ) = (loneLiteral? ts).map φ := by
  match ts with
  | [] => rfl
  | [t] =>
    cases hl : t.kind.isLiteral <;> simp [loneLiteral?,Token.isLiteral,hk,hl]
  | _ :: _ :: _ => rfl

theorem Form.ofRange_map (ts : List Token) :
    ofRange (ts.map φ) = (ofRange ts).map φ := by
  have hi : interior (ts.map φ) = (interior ts).map φ := by
    simp [interior,List.map_dropLast]
  have ha : ((ts.map φ).any fun t => t.kind.isArithmetic) =
      ts.any fun t => t.kind.isArithmetic := by
    simp only [List.any_map,Function.comp_def,hk]
  simp only [ofRange,loneLiteral?_map hk,isGroup_map hk,hi,ha,List.isEmpty_map]
  cases loneLiteral? ts with
  | some t => rfl
  | none =>
    simp only [Option.map_none,apply_ite (map φ)]
    rfl

theorem cutAt_map (delimiter : TokenKind) (cuts : Option Nat) (ts : List Token) :
    cutAt delimiter cuts (ts.map φ) = (cutAt delimiter cuts ts).map (List.map φ) := by
  have hl : ∀ ts : List Token, lastChunk (ts.map φ) = (lastChunk ts).map (List.map φ) := by
    intro ts
    cases ts <;> rfl
  have hfree : ∀ {ts : List Token}, (∀ t ∈ ts, t.kind ≠ delimiter) →
      ∀ t ∈ ts.map φ, t.kind ≠ delimiter := by
    intro ts h t ht
    obtain ⟨u,hu,rfl⟩ := List.mem_map.1 ht
    rw [hk]
    exact h u hu
  by_cases hc : cuts = some 0
  · rw [hc,cutAt_of_no_cuts,cutAt_of_no_cuts,hl]
  · induction ts using induction_on_first delimiter generalizing cuts with
    | free ts hf => rw [cutAt_of_free hf,cutAt_of_free (hfree hf),hl]
    | cut before t after hb ht ih =>
      have ht' : (φ t).kind = delimiter := (hk t).trans ht
      rw [List.map_append,List.map_cons,cutAt_cons_delimiter hc hb ht,
        cutAt_cons_delimiter hc (hfree hb) ht',List.map_cons]
      by_cases hc' : cuts.map (fun n => n-1) = some 0
      · rw [hc',cutAt_of_no_cuts,cutAt_of_no_cuts,hl]
      · rw [ih _ hc']

theorem chunks_map (delimiter : TokenKind) (limit : Option Nat) (ts : List Token) :
    chunks delimiter limit (ts.map φ) = (chunks delimiter limit ts).map (List.map φ) :=
  cutAt_map hk delimiter _ ts

end Kinds

section Results

variable {ρ : String → String} {φ : Token → Token}

theorem Recasts.parsePrimary_map (h : Recasts ρ φ) (t : Token) :
    parsePrimary (φ t) = recastResult φ (Expr.rename ρ) (parsePrimary t) := by
  unfold parsePrimary
  rw [h.kind]
  split
  · rename_i hn
    rw [h.number t hn]
    split
    · split <;> rfl
    · rfl
  · rename_i hi
    rw [h.ident t hi]; rfl
  · rfl

theorem Recasts.result_parseExprAt_map (h : Recasts ρ φ) (depth : Nat) (ts : List Token) :
    (parseExprAt depth (ts.map φ)).result =
      recastResult φ (Expr.rename ρ) (parseExprAt depth ts).result := by
  induction hn : ts.length using Nat.strongRecOn generalizing depth ts with
  | ind n ih =>
    subst hn
    by_cases hd : nestingLimit < depth
    · rw [result_parseExprAt_of_deep hd,result_parseExprAt_of_deep hd]; rfl
    · have hd := Nat.not_lt.1 hd
      rw [result_parseExprAt hd,result_parseExprAt hd,Form.ofRange_map h.kind]
      cases hf : Form.ofRange ts with
      | literal t => exact h.parsePrimary_map t
      | group inner => exact ih _ (Form.length_lt_of_ofRange hf) (depth+1) inner rfl
      | missing => rfl
      | formless => rfl
      | operation =>
        have hm := Split.outermost?_map h.kind ts
        simp only [Form.map]
        cases hs : Split.outermost? ts with
        | none =>
          rw [hs,Option.map_none] at hm
          rw [result_parseChainAt_of_none hs,result_parseChainAt_of_none hm]; rfl
        | some s =>
          obtain ⟨op,hop,hk⟩ := Split.exists_operator_of_outermost? hs
          have hop' : BinaryOperator.ofKind? (s.map φ).operator.kind = some op :=
            (congrArg _ (h.kind s.operator)).trans hop
          have hl := Split.length_of_outermost? hs
          rw [hs,Option.map_some] at hm
          rw [result_parseChainAt_of_some hd hs hop,result_parseChainAt_of_some hd hm hop']
          simp only [Split.map]
          rw [ih _ (by omega) depth s.left rfl,ih _ (by omega) depth s.right rfl]
          cases (parseExprAt depth s.left).result with
          | error e => rfl
          | ok l => cases (parseExprAt depth s.right).result <;> rfl

theorem definedName?_map (h : Recasts ρ φ) (ts : List Token) :
    definedName? (ts.map φ) = (definedName? ts).map ρ := by
  match ts with
  | [] => rfl
  | [_] => rfl
  | _ :: t :: _ =>
    simp only [List.map_cons,definedName?,h.kind]
    split
    · rename_i hi
      rw [h.ident t hi]; rfl
    · rfl

theorem Recasts.result_parseDefine_map (h : Recasts ρ φ) (ts : List Token) :
    (parseDefine (ts.map φ)).result =
      recastResult φ (Stmt.rename ρ) (parseDefine ts).result := by
  unfold parseDefine
  rw [definedName?_map h,← List.map_drop,chunks_map h.kind]
  cases definedName? ts with
  | none => rfl
  | some name =>
    simp only [Option.map_some,Traced.result_bind,Traced.result_emit,Except.bind]
    -- two chunks are a name and a value, any other number of chunks is an error
    match chunks .equal (some 2) (ts.drop 1) with
    | [] | [_] | _ :: _ :: _ :: _ => rfl
    | [_,value] =>
      simp only [List.map_cons,List.map_nil,Traced.result_bind,Traced.result_pure,parseExpr,
        h.result_parseExprAt_map]
      cases (parseExprAt 0 value).result <;> rfl

theorem Recasts.result_parseStatement_map (h : Recasts ρ φ) (ts : List Token) :
    (parseStatement (ts.map φ)).result =
      recastResult φ (Stmt.rename ρ) (parseStatement ts).result := by
  cases ts with
  | nil => rfl
  | cons first rest =>
    have hd := h.result_parseDefine_map (first :: rest)
    simp only [parseStatement,List.map_cons,h.kind] at hd ⊢
    split
    · exact hd
    · simp only [parsePrint,List.drop_one,List.tail_cons,Traced.result_bind,Traced.result_pure,
        parseExpr,h.result_parseExprAt_map]
      cases (parseExprAt 0 rest).result <;> rfl
    · rfl

theorem Recasts.statementsOf_map (h : Recasts ρ φ) (pieces : List (List Token)) :
    statementsOf (pieces.map (List.map φ)) =
      recastResult φ (List.map (Stmt.rename ρ)) (statementsOf pieces) := by
  induction pieces with
  | nil => rfl
  | cons piece pieces ih =>
    simp only [statementsOf,List.map_cons,List.mapM_cons] at ih ⊢
    rw [h.result_parseStatement_map,ih]
    cases (parseStatement piece).result with
    | error e => rfl
    | ok s =>
      generalize (pieces.mapM fun piece => (parseStatement piece).result) = more
      cases more <;> rfl

theorem Recasts.result_parseProgram_map (h : Recasts ρ φ) (ts : List Token) :
    (parseProgram (ts.map φ)).result =
      recastResult φ (Program.rename ρ) (parseProgram ts).result := by
  by_cases hn : ts = []
  · subst hn; rfl
  · rw [result_parseProgram (by simpa using hn),result_parseProgram hn,chunks_map h.kind,
      h.statementsOf_map]
    cases statementsOf (chunks .semicolon none ts) <;> rfl

/-- Under a map that keeps kinds and numerals and sends names through one function, a program has
its names sent through that function, and an error keeps its name and has its tokens mapped. -/
theorem parseProgram_recast (h : Recasts ρ φ) (ts : List Token) :
    (∀ p, (parseProgram ts).result = .ok p →
      (parseProgram (ts.map φ)).result = .ok (p.rename ρ)) ∧
    ∀ e, (parseProgram ts).result = .error e →
      (parseProgram (ts.map φ)).result = .error (e.recast φ) ∧
        (e.recast φ).name = e.name ∧ (e.recast φ).tokens = e.tokens.map φ := by
  have hm := h.result_parseProgram_map ts
  refine ⟨?_,?_⟩
  · intro p hp
    rw [hm,hp]; rfl
  · intro e he
    rw [hm,he]
    exact ⟨rfl,e.name_recast φ,rfl⟩

/-- Names are doubled and all texts without a meaning are lost, also the one an error shows. -/
theorem parseProgram_recast_doubled :
    (parseProgram [⟨.letKeyword,"?"⟩,⟨.ident,"aa"⟩,⟨.equal,"?"⟩,⟨.ident,"bb"⟩]).result =
      .ok ⟨[.define "aa" (.identifier "bb")]⟩ ∧
    (parseProgram [⟨.equal,"?"⟩,⟨.ident,"aa"⟩]).result =
      .error ⟨.statement (.unknownKeyword "?"),[⟨.equal,"?"⟩,⟨.ident,"aa"⟩]⟩ := by
  have hr := recasts_recast (fun name => name ++ name) fun _ => "?"
  have hp : (parseProgram [⟨.letKeyword,"let"⟩,⟨.ident,"a"⟩,⟨.equal,"="⟩,⟨.ident,"b"⟩]).result =
      .ok ⟨[.define "a" (.identifier "b")]⟩ := by cbv
  have he : (parseProgram [⟨.equal,"="⟩,⟨.ident,"a"⟩]).result =
      .error ⟨.statement (.unknownKeyword "="),[⟨.equal,"="⟩,⟨.ident,"a"⟩]⟩ := by cbv
  exact ⟨(parseProgram_recast hr _).1 _ hp,((parseProgram_recast hr _).2 _ he).1⟩

end Results

end LetPrint
