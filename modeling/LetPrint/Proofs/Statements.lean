import LetPrint.Parse.Program
import LetPrint.Proofs.Chunks
import LetPrint.Proofs.Peeling
import Mathlib.Data.List.Forall2

set_option autoImplicit false

namespace LetPrint

namespace Traced

variable {α β : Type}

theorem result_bind_eq_ok_iff {x : Traced α} {f : α → Traced β} {b : β} :
    (x >>= f).result = .ok b ↔ ∃ a, x.result = .ok a ∧ (f a).result = .ok b := by
  rw [result_bind]
  cases x.result <;> simp [Except.bind]

theorem result_map_eq_ok_iff {x : Traced α} {f : α → β} {b : β} :
    (do let a ← x
        return f a).result = .ok b ↔ ∃ a, x.result = .ok a ∧ b = f a := by
  simp only [result_bind_eq_ok_iff,result_pure,Except.ok.injEq,@eq_comm _ _ b]

theorem result_mapM_eq_ok_iff {f : α → Traced β} {as : List α} {bs : List β} :
    (as.mapM f).result = .ok bs ↔ List.Forall₂ (fun a b => (f a).result = .ok b) as bs := by
  induction as generalizing bs with
  | nil => rw [List.mapM_nil,result_pure,Except.ok.injEq,List.forall₂_nil_left_iff,eq_comm]
  | cons a as ih =>
    rw [List.mapM_cons,List.forall₂_cons_left_iff,result_bind_eq_ok_iff]
    refine ⟨?_,?_⟩
    · intro h
      obtain ⟨b,ha,h⟩ := h
      obtain ⟨more,hm,hbs⟩ := result_map_eq_ok_iff.1 h
      exact ⟨b,more,ha,ih.1 hm,hbs⟩
    · intro h
      obtain ⟨b,more,ha,hm,hbs⟩ := h
      exact ⟨b,ha,result_map_eq_ok_iff.2 ⟨more,ih.2 hm,hbs⟩⟩

end Traced

theorem exists_mem_of_forall₂ {α β : Type} {R : α → β → Prop} {as : List α} {bs : List β} {b : β}
    (h : List.Forall₂ R as bs) (hb : b ∈ bs) : ∃ a ∈ as, R a b := by
  induction h with
  | nil => cases hb
  | @cons a c as bs hr _ ih =>
    rcases List.mem_cons.1 hb with rfl | hb
    · exact ⟨a,by simp,hr⟩
    · obtain ⟨a',ha,hr⟩ := ih hb
      exact ⟨a',by simp [ha],hr⟩

theorem definedName?_eq_some_iff {ts : List Token} {name : String} :
    definedName? ts = some name ↔
      ∃ first t rest, ts = first :: t :: rest ∧ t.kind = .ident ∧ t.text = name := by
  unfold definedName?
  split
  · simp
  · rename_i hn
    simp only [reduceCtorEq,false_iff]
    intro h
    obtain ⟨first,t,rest,rfl,-⟩ := h
    exact hn first t rest rfl

theorem ne_nil_of_result_parseExpr {ts : List Token} {e : Expr}
    (h : (parseExpr ts).result = .ok e) : ts ≠ [] := by
  intro hn
  rw [hn,parseExpr,result_parseExprAt (by decide),show Form.ofRange [] = .missing from rfl] at h
  cases h

theorem result_parseDefine_eq_ok_iff {ts : List Token} {s : Stmt} :
    (parseDefine ts).result = .ok s ↔
      ∃ first t between equal rest value, ts = first :: t :: (between ++ equal :: rest) ∧
        t.kind = .ident ∧ equal.kind = .equal ∧ (∀ u ∈ between, u.kind ≠ .equal) ∧
        (parseExpr rest).result = .ok value ∧ s = .define t.text value := by
  refine ⟨?_,?_⟩
  · intro h
    unfold parseDefine at h
    split at h
    · cases h
    · rename_i name hname
      obtain ⟨first,t,rest,rfl,ht,rfl⟩ := definedName?_eq_some_iff.1 hname
      simp only [List.drop_one,List.tail_cons,Traced.result_bind,Traced.result_emit,
        Except.bind] at h
      split at h
      · rename_i before value hc
        obtain ⟨-,hb,equal,he,heq⟩ := chunks_two_eq_iff.1 hc
        obtain ⟨e,hv,rfl⟩ := Traced.result_map_eq_ok_iff.1 h
        -- the name is no equal sign, so it belongs to what stands before the first one
        cases before with
        | nil =>
          obtain ⟨rfl,-⟩ := List.cons.inj heq
          rw [ht] at he
          cases he
        | cons u between =>
          obtain ⟨rfl,rfl⟩ := List.cons.inj heq
          exact ⟨first,t,between,equal,value,e,rfl,ht,he,fun u hu => hb u (by simp [hu]),hv,rfl⟩
      · cases h
  · intro h
    obtain ⟨first,t,between,equal,rest,value,rfl,ht,he,hb,hv,rfl⟩ := h
    have hname : definedName? (first :: t :: (between ++ equal :: rest)) = some t.text :=
      definedName?_eq_some_iff.2 ⟨first,t,_,rfl,ht,rfl⟩
    have hn := ne_nil_of_result_parseExpr hv
    have hc : chunks .equal (some 2) (t :: between ++ equal :: rest) = [t :: between,rest] :=
      chunks_two_eq_iff.2 ⟨hn,by simpa [ht] using hb,equal,he,rfl⟩
    unfold parseDefine
    rw [hname]
    simp only [List.drop_one,List.tail_cons,Traced.result_bind,Traced.result_emit,Except.bind]
    rw [List.cons_append] at hc
    rw [hc]
    exact Traced.result_map_eq_ok_iff.2 ⟨value,hv,rfl⟩

theorem result_parsePrint_eq_ok_iff {ts : List Token} {s : Stmt} :
    (parsePrint ts).result = .ok s ↔
      ∃ value, (parseExpr (ts.drop 1)).result = .ok value ∧ s = .print value :=
  Traced.result_map_eq_ok_iff

theorem result_parseStatement_eq_ok_iff {ts : List Token} {s : Stmt} :
    (parseStatement ts).result = .ok s ↔ ∃ first rest, ts = first :: rest ∧
      (first.kind = .printKeyword ∧ (parsePrint ts).result = .ok s ∨
        first.kind = .letKeyword ∧ (parseDefine ts).result = .ok s) := by
  cases ts with
  | nil => simp [parseStatement]
  | cons first rest =>
    cases hk : first.kind <;> simp [parseStatement,hk]

theorem parts_of_result_parseStatement {ts : List Token} {s : Stmt}
    (h : (parseStatement ts).result = .ok s) :
    (∃ rest, rest ⊆ ts ∧ (parseExpr rest).result = .ok s.value) ∧
      ∀ name value, s = .define name value → ∃ t ∈ ts, t.kind = .ident ∧ t.text = name := by
  obtain ⟨first,rest,rfl,⟨-,h⟩ | ⟨-,h⟩⟩ := result_parseStatement_eq_ok_iff.1 h
  · obtain ⟨value,hv,rfl⟩ := result_parsePrint_eq_ok_iff.1 h
    exact ⟨⟨rest,by simp,hv⟩,nofun⟩
  · obtain ⟨_,t,between,equal,rest,value,hts,ht,-,-,hv,rfl⟩ := result_parseDefine_eq_ok_iff.1 h
    rw [hts]
    refine ⟨⟨rest,?_,hv⟩,?_⟩
    · intro u hu
      simp [hu]
    · intro name value hs
      cases hs
      exact ⟨t,by simp,ht,rfl⟩

theorem result_parseProgram_eq_ok_iff {ts : List Token} {p : Program} :
    (parseProgram ts).result = .ok p ↔ ts ≠ [] ∧
      List.Forall₂ (fun piece s => (parseStatement piece).result = .ok s)
        (chunks .semicolon none ts) p.body := by
  by_cases hn : ts = []
  · simp [parseProgram,hn]
  · rw [parseProgram,if_neg hn,← Traced.result_mapM_eq_ok_iff]
    simp only [Traced.result_bind_eq_ok_iff,Traced.result_emit]
    obtain ⟨body⟩ := p
    simp [hn]

theorem exists_subset_of_result_parseProgram {ts : List Token} {p : Program} {s : Stmt}
    (h : (parseProgram ts).result = .ok p) (hs : s ∈ p.body) :
    ∃ piece, piece ⊆ ts ∧ (parseStatement piece).result = .ok s := by
  obtain ⟨-,hf⟩ := result_parseProgram_eq_ok_iff.1 h
  obtain ⟨piece,hm,hp⟩ := exists_mem_of_forall₂ hf hs
  exact ⟨piece,subset_of_mem_cutAt hm,hp⟩

theorem body_ne_nil_of_result_parseProgram {ts : List Token} {p : Program}
    (h : (parseProgram ts).result = .ok p) : p.body ≠ [] := by
  obtain ⟨hn,hf⟩ := result_parseProgram_eq_ok_iff.1 h
  intro hb
  rw [hb,List.forall₂_nil_right_iff] at hf
  exact chunks_ne_nil hn none hf

end LetPrint
