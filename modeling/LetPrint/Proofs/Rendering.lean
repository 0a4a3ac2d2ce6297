import LetPrint.Proofs.Layouts
import LetPrint.Proofs.RoundTrip
import LetPrint.Proofs.WrittenNumbers
import Mathlib.Tactic.TFAE

set_option autoImplicit false

namespace LetPrint

open Text

section Leaves

theorem not_isStop_of_isWordChar {c : Char} (h : isWordChar c = true) : isStop c = false := by
  by_contra hs
  rw [Bool.not_eq_false,isStop] at hs
  simp only [Bool.or_eq_true,beq_iff_eq] at hs
  rcases hs with ((rfl | rfl) | rfl) | rfl <;> revert h <;> decide

theorem escape_of_isWordChar {c : Char} (h : isWordChar c = true) : escape c = [c] := by
  have hne : ∀ d : Char, isWordChar d = false → c ≠ d := by
    rintro d hd rfl
    rw [h] at hd
    cases hd
  have hp : isPrintable c = true := by
    rw [isWordChar,Bool.or_eq_true,isWordStart_iff,isDigit_iff] at h
    exact isPrintable_of_ascii (by omega) (by omega)
  rw [escape,if_neg (hne _ (by decide)),if_neg (hne _ (by decide)),if_neg (hne _ (by decide)),
    if_neg (hne _ (by decide)),if_neg (hne _ (by decide)),if_neg (hne _ (by decide)),if_pos hp]

theorem IsName.forall_isWordChar {name : String} (h : IsName name) :
    ∀ c ∈ name.toList, isWordChar c = true := by
  obtain ⟨⟨c,tail,hc,hs,ht⟩,-⟩ := h
  rw [hc,List.forall_mem_cons]
  exact ⟨by simp [isWordChar,hs],ht⟩

theorem flatMap_escape {cs : List Char} (h : ∀ c ∈ cs, isWordChar c = true) :
    cs.flatMap escape = cs := by
  induction cs with
  | nil => rfl
  | cons c cs ih =>
    rw [List.forall_mem_cons] at h
    simp [escape_of_isWordChar h.1,ih h.2]

theorem IsName.toList_quote {name : String} (h : IsName name) :
    (quote name).toList = '"' :: (name.toList ++ ['"']) := by
  rw [Text.toList_quote,quoted,flatMap_escape h.forall_isWordChar]
  rfl

theorem tells_quote {m n : String} (hm : IsName m) (hn : IsName n) : Tells quote m n := by
  have hs : ∀ name, IsName name → ∀ c ∈ (quote name).toList, isStop c = false := by
    intro name h
    rw [h.toList_quote,List.forall_mem_cons,List.forall_mem_append]
    exact ⟨rfl,fun c hc => not_isStop_of_isWordChar (h.forall_isWordChar c hc),by simp [isStop]⟩
  refine tells_of_no_stop (hs m hm) (hs n hn) ?_
  intro h
  rw [← String.toList_inj,hm.toList_quote,hn.toList_quote] at h
  rw [← String.toList_inj]
  simpa using h

theorem tells_write {x y : Binary64} (hx : x.isFinite = true) (hy : y.isFinite = true) :
    Tells Binary64.write x y := by
  have ha : ∀ c : Char, c.isAlphanum = true → isStop c = false := by
    intro c hc
    refine not_isStop_of_isWordChar ?_
    rw [Char.isAlphanum,Bool.or_eq_true] at hc
    rcases hc with hc | hc <;> simp [isWordChar,isWordStart,hc]
  have hs : ∀ x : Binary64, ∀ c ∈ x.write.toList, isStop c = false := by
    intro x
    rw [Binary64.write,String.toList_ofList]
    exact x.forall_mem_writeChars ha rfl rfl
  exact tells_of_no_stop (hs x) (hs y) (Binary64.eq_of_write_eq hx hy)

end Leaves

def Expr.Spellable : Expr → Prop
  | number x => x.isFinite = true ∧ x.negative = false
  | identifier name => IsName name
  | binary _ l r => l.Spellable ∧ r.Spellable

def Stmt.Spellable : Stmt → Prop
  | define name value => IsName name ∧ value.Spellable
  | print value => value.Spellable

section Spellable

theorem Expr.spellable_of_leaves {e : Expr} (hn : ∀ name, .identifier name ∈ e.leaves → IsName name)
    (hx : ∀ x, .number x ∈ e.leaves → x.isFinite = true ∧ x.negative = false) : e.Spellable := by
  induction e with
  | number x => exact hx x (by simp [leaves])
  | identifier name => exact hn name (by simp [leaves])
  | binary op l r ihl ihr =>
    simp only [leaves,List.mem_append] at hn hx
    exact ⟨ihl (fun name h => hn name (.inl h)) fun x h => hx x (.inl h),
      ihr (fun name h => hn name (.inr h)) fun x h => hx x (.inr h)⟩

theorem Program.Printable.spellable {w : Binary64 → String} {p : Program} {s : Stmt}
    (h : p.Printable w) (hs : s ∈ p.body) : s.Spellable := by
  have hv : s.value.Spellable :=
    Expr.spellable_of_leaves (fun name hm => h.used name (List.mem_flatMap.2 ⟨s,hs,hm⟩))
      fun x hm => h.numbers x (List.mem_flatMap.2 ⟨s,hs,hm⟩)
  cases s with
  | define name value => exact ⟨h.defined name value hs,hv⟩
  | print value => exact hv

end Spellable

section Equality

theorem Binary64.equals_iff {x y : Binary64} (hx : x.isFinite = true) (hnx : x.negative = false)
    (hny : y.negative = false) : x.equals y = true ↔ x = y := by
  obtain ⟨n,m,hm⟩ := x
  obtain ⟨n',m',hm'⟩ := y
  obtain rfl : n = false := hnx
  obtain rfl : n' = false := hny
  simp [equals,isNaN,isFinite] at hx ⊢
  omega

theorem Expr.equals_iff {e f : Expr} (he : e.Spellable) (hf : f.Spellable) :
    e.equals f = true ↔ e = f := by
  induction e generalizing f with
  | number x =>
    cases f with
    | number y => simpa [equals] using Binary64.equals_iff he.1 he.2 hf.2
    | identifier name => simp [equals]
    | binary op l r => simp [equals]
  | identifier name => cases f <;> simp [equals]
  | binary op l r ihl ihr =>
    cases f with
    | number y => simp [equals]
    | identifier name => simp [equals]
    | binary op' l' r' => simp [equals,ihl he.1 hf.1,ihr he.2 hf.2,and_assoc]

theorem Stmt.equals_iff {s t : Stmt} (hs : s.Spellable) (ht : t.Spellable) :
    s.equals t = true ↔ s = t := by
  cases s with
  | define name value =>
    cases t with
    | define name' value' => simp [equals,Expr.equals_iff hs.2 ht.2]
    | print value' => simp [equals]
  | print value =>
    cases t with
    | define name' value' => simp [equals]
    | print value' => simpa [equals] using Expr.equals_iff hs ht

theorem Program.equals_iff {p q : Program} (hp : ∀ s ∈ p.body, s.Spellable)
    (hq : ∀ s ∈ q.body, s.Spellable) : p.equals q = true ↔ p = q := by
  obtain ⟨ss⟩ := p
  obtain ⟨ts⟩ := q
  induction ss generalizing ts with
  | nil => cases ts <;> simp [equals,size]
  | cons s ss ih =>
    cases ts with
    | nil => simp [equals,size]
    | cons t ts =>
      simp only [List.forall_mem_cons] at hp hq
      have ih : (ss.length = ts.length ∧ ∀ a b, (a,b) ∈ ss.zip ts → a.equals b = true) ↔ ss = ts := by
        simpa [equals,size] using ih hp.2 ts hq.2
      simp [equals,size,Stmt.equals_iff hp.1 hq.1,← ih,and_left_comm]

end Equality

section Texts

variable {layout : Layout} {level : Nat}

theorem tells_operator (op op' : BinaryOperator) : Tells BinaryOperator.name op op' := by
  refine tells_of_no_stop ?_ ?_ ?_
  · cases op <;> simp [BinaryOperator.name,isStop]
  · cases op' <;> simp [BinaryOperator.name,isStop]
  · cases op <;> cases op' <;> decide

theorem tells_dumpName {m n : String} (hm : IsName m) (hn : IsName n) (layout : Layout)
    (level : Nat) : Tells (fun name => dumpName name layout level) m n := by
  have hq := tells_quote hm hn
  refine @Layout.tells_record layout level _ _ _ (fun _ => "IdentifierExpr")
    (fun name => [("name",quote name)]) rfl (by simp) ⟨by simp,?_,?_⟩
  · simpa using hq.texts
  · intro h
    exact hq.eq (by simpa using h)

namespace Expr

/-- What stands before the bracket of a tree, and at the start of the name of the record in it. -/
def tag : Expr → String
  | number _ => "Number"
  | identifier _ => "Identifier"
  | binary _ _ _ => "Binary"

def fields (layout : Layout) (level : Nat) : Expr → List (String × String)
  | number x => [("value",x.write)]
  | identifier name => [("name",quote name)]
  | binary op l r =>
    [("operator",op.name),("left",l.dump layout level),("right",r.dump layout level)]

theorem dump_eq : dump layout level = fun e => layout.tagged level e.tag
    (layout.record (level+1) (e.tag ++ "Expr") (e.fields layout (level+2))) := by
  funext e
  cases e <;> rw [dump] <;> rfl

theorem tells_of_fields {e f : Expr}
    (h : e.tag = f.tag → Layout.FieldsTell (fields layout (level+2)) e f) :
    Tells (dump layout level) e f := by
  rw [dump_eq]
  refine Layout.tells_node "Expr" ?_ ?_ h
  · intro e
    cases e <;> simp [tag]
  · intro e
    cases e <;> simp [fields]

theorem tells_dump {e f : Expr} (he : e.Spellable) (hf : f.Spellable) (layout : Layout)
    (level : Nat) : Tells (dump layout level) e f := by
  -- trees of two kinds have two tags, so that only the fields of one kind are compared
  induction e generalizing f level with
  | number x =>
    refine tells_of_fields fun htag => ?_
    cases f with
    | number y =>
      have hx := tells_write he.1 hf.1
      refine ⟨by simp [fields],by simpa [fields] using hx.texts,fun h => ?_⟩
      rw [hx.eq (by simpa [fields] using h)]
    | identifier name => simp [tag] at htag
    | binary op l r => simp [tag] at htag
  | identifier name =>
    refine tells_of_fields fun htag => ?_
    cases f with
    | number y => simp [tag] at htag
    | identifier name' =>
      have hn := tells_quote he hf
      refine ⟨by simp [fields],by simpa [fields] using hn.texts,fun h => ?_⟩
      rw [hn.eq (by simpa [fields] using h)]
    | binary op l r => simp [tag] at htag
  | binary op l r ihl ihr =>
    refine tells_of_fields fun htag => ?_
    cases f with
    | number y => simp [tag] at htag
    | identifier name => simp [tag] at htag
    | binary op' l' r' =>
      have hop := tells_operator op op'
      have hl := ihl he.1 hf.1 (level+2)
      have hr := ihr he.2 hf.2 (level+2)
      refine ⟨by simp [fields],by simpa [fields] using ⟨hop.texts,hl.texts,hr.texts⟩,fun h => ?_⟩
      obtain ⟨h1,h2,h3⟩ : op.name = op'.name ∧ l.dump layout (level+2) = l'.dump layout (level+2) ∧
          r.dump layout (level+2) = r'.dump layout (level+2) := by simpa [fields] using h
      rw [hop.eq h1,hl.eq h2,hr.eq h3]

end Expr

namespace Stmt

def tag : Stmt → String
  | define _ _ => "Let"
  | print _ => "Print"

def fields (layout : Layout) (level : Nat) : Stmt → List (String × String)
  | define name value => [("name",dumpName name layout level),("value",value.dump layout level)]
  | print value => [("value",value.dump layout level)]

theorem dump_eq : dump layout level = fun s => layout.tagged level s.tag
    (layout.record (level+1) (s.tag ++ "Stmt") (s.fields layout (level+2))) := by
  funext s
  cases s <;> rfl

theorem tells_of_fields {s t : Stmt}
    (h : s.tag = t.tag → Layout.FieldsTell (fields layout (level+2)) s t) :
    Tells (dump layout level) s t := by
  rw [dump_eq]
  refine Layout.tells_node "Stmt" ?_ ?_ h
  · intro s
    cases s <;> simp [tag]
  · intro s
    cases s <;> simp [fields]

theorem tells_dump {s t : Stmt} (hs : s.Spellable) (ht : t.Spellable) (layout : Layout)
    (level : Nat) : Tells (dump layout level) s t := by
  refine tells_of_fields fun htag => ?_
  cases s with
  | define name value =>
    cases t with
    | define name' value' =>
      have hn := tells_dumpName hs.1 ht.1 layout (level+2)
      have hv := Expr.tells_dump hs.2 ht.2 layout (level+2)
      refine ⟨by simp [fields],by simpa [fields] using ⟨hn.texts,hv.texts⟩,fun h => ?_⟩
      obtain ⟨h1,h2⟩ : dumpName name layout (level+2) = dumpName name' layout (level+2) ∧
          value.dump layout (level+2) = value'.dump layout (level+2) := by simpa [fields] using h
      rw [hn.eq h1,hv.eq h2]
    | print value' => simp [tag] at htag
  | print value =>
    cases t with
    | define name' value' => simp [tag] at htag
    | print value' =>
      have hv := Expr.tells_dump hs ht layout (level+2)
      refine ⟨by simp [fields],by simpa [fields] using hv.texts,fun h => ?_⟩
      rw [hv.eq (by simpa [fields] using h)]

end Stmt

theorem Program.eq_of_dump_eq {p q : Program} (hp : ∀ s ∈ p.body, s.Spellable)
    (hq : ∀ s ∈ q.body, s.Spellable) (hpn : p.body ≠ []) (hqn : q.body ≠ [])
    (h : p.dump layout = q.dump layout) : p = q := by
  obtain ⟨ss⟩ := p
  obtain ⟨ts⟩ := q
  have hbody : Tells (fun body => layout.list 1 (body.map fun s => s.dump layout 2)) ss ts :=
    Layout.tells_list hpn hqn fun s hs t ht => Stmt.tells_dump (hp s hs) (hq t ht) layout 2
  have hrecord : Tells (fun body => layout.record 0 "Program"
      [("body",layout.list 1 (body.map fun s => s.dump layout 2))]) ss ts := by
    refine Layout.tells_record rfl (by simp) ⟨by simp,?_,?_⟩
    · simpa using hbody.texts
    · intro h
      exact hbody.eq (by simpa using h)
  rw [hrecord.eq h]

end Texts

theorem result_parseSource_numeral {text : String} {x : Binary64}
    (hw : WritesBack (fun _ => text) x) (hf : x.isFinite = true) (hn : x.negative = false) :
    (parseSource (" ".intercalate ["print",text,";"])).result = .ok ⟨[.print (.number x)]⟩ := by
  have hl : Program.leaves ⟨[.print (.number x)]⟩ = [.number x] := rfl
  have hp : Program.Printable (fun _ => text) ⟨[.print (.number x)]⟩ := by
    refine ⟨by simp,by simp,by simp [hl],by simp [hl,hf,hn],?_⟩
    simp [Program.tokens,Stmt.tokens,Expr.tokens,peak,TokenKind.nesting,nestingLimit]
  have ht : " ".intercalate ["print",text,";"] =
      Program.print (fun _ => text) ⟨[.print (.number x)]⟩ := by
    simp [Program.print,Program.tokens,Stmt.tokens,Expr.tokens]
  rw [ht]
  exact result_parseSource_print hp (by simpa [hl] using hw)

/-- Of two programs that are read from sources, equality by values, equality of the texts in one
line, equality of the indented texts and equality of all parts are the same, and a program that is
read from a source is equal to itself. -/
theorem parseSource_equality {a b : String} {p q : Program} (hp : (parseSource a).result = .ok p)
    (hq : (parseSource b).result = .ok q) :
    [p.equals q = true,p.inline = q.inline,p.indented = q.indented,p = q].TFAE ∧
      p.equals p = true := by
  have hpp := printable_of_result_parseSource hp Binary64.write
  have hqp := printable_of_result_parseSource hq Binary64.write
  have hps : ∀ s ∈ p.body, s.Spellable := fun _ => hpp.spellable
  have hqs : ∀ s ∈ q.body, s.Spellable := fun _ => hqp.spellable
  have hdump : ∀ layout, p.dump layout = q.dump layout → p = q := fun _ =>
    Program.eq_of_dump_eq hps hqs hpp.body_ne_nil hqp.body_ne_nil
  refine ⟨?_,(Program.equals_iff hps hps).2 rfl⟩
  tfae_have 1 ↔ 4 := Program.equals_iff hps hqs
  tfae_have 2 → 4 := hdump .inline
  tfae_have 3 → 4 := hdump .indented
  tfae_have 4 → 2 := congrArg Program.inline
  tfae_have 4 → 3 := congrArg Program.indented
  tfae_finish

theorem parseSource_equality_of_numerals :
    (parseSource "print 1.5 ;").result = .ok ⟨[.print (.number (.ofDecimal false ⟨15,-1⟩))]⟩ ∧
    (parseSource "print 15 ;").result = .ok ⟨[.print (.number (.ofDecimal false ⟨15,0⟩))]⟩ ∧
    Program.inline ⟨[.print (.number (.ofDecimal false ⟨15,-1⟩))]⟩ ≠
      Program.inline ⟨[.print (.number (.ofDecimal false ⟨15,0⟩))]⟩ := by
  have hp : (parseSource "print 1.5 ;").result =
      .ok ⟨[.print (.number (.ofDecimal false ⟨15,-1⟩))]⟩ :=
    @result_parseSource_numeral "1.5" _ ⟨.inr ⟨['1'],['5'],by simp [IsDigits]⟩,by decide +kernel⟩
      (by decide +kernel) rfl
  have hq : (parseSource "print 15 ;").result =
      .ok ⟨[.print (.number (.ofDecimal false ⟨15,0⟩))]⟩ :=
    @result_parseSource_numeral "15" _ ⟨.inl (by simp [IsDigits]),by decide +kernel⟩
      (by decide +kernel) rfl
  have hne : (⟨[.print (.number (.ofDecimal false ⟨15,-1⟩))]⟩ : Program) ≠
      ⟨[.print (.number (.ofDecimal false ⟨15,0⟩))]⟩ := by decide +kernel
  exact ⟨hp,hq,mt ((parseSource_equality hp hq).1.out 1 3).1 hne⟩

end LetPrint
