import LetPrint.Proofs.LexemeClasses
import LetPrint.Text.Layout

/-!
Structured text can be taken apart again. Behind an item stands nothing, or a comma, a blank or a
closing bracket; if the items tell what they are of by then, so do the brackets around them in both
layouts.
-/

set_option autoImplicit false

namespace LetPrint.Text

def isStop (c : Char) : Bool := c == ',' || c == ' ' || c == ')' || c == ']'

def Stops (rest : List Char) : Prop := ∀ c ∈ rest.head?, isStop c = true

/-- Two things are the same if their texts are beginnings of one text, each up to a stop. -/
def Tells {α : Type} (f : α → String) (a b : α) : Prop :=
  ∀ r s, Stops r → Stops s → (f a).toList ++ r = (f b).toList ++ s → a = b

section Tells

variable {α : Type} {f : α → String} {a b : α}

theorem stops_nil : Stops [] := nofun

theorem Tells.eq (h : Tells f a b) (he : f a = f b) : a = b :=
  h [] [] stops_nil stops_nil (by rw [he])

theorem Tells.texts (h : Tells f a b) : Tells id (f a) (f b) :=
  fun r s hr hs he => congrArg f (h r s hr hs he)

theorem tells_of_no_stop (ha : ∀ c ∈ (f a).toList, isStop c = false)
    (hb : ∀ c ∈ (f b).toList, isStop c = false) (h : f a = f b → a = b) : Tells f a b := by
  have hrun : ∀ v r : List Char, (∀ c ∈ v, isStop c = false) → Stops r →
      (v ++ r).takeWhile (fun c => !isStop c) = v := by
    intro v r hv hr
    exact takeWhile_append_of_boundary (by simpa using hv) (by simpa [Stops] using hr)
  intro r s hr hs he
  apply h
  rw [← String.toList_inj,← hrun _ r ha hr,he,hrun _ s hb hs]

end Tells

theorem toList_margin (level : Nat) : (margin level).toList = List.replicate (4*level) ' ' := by
  unfold margin String.pushn
  induction 4*level with
  | zero => rfl
  | succ n ih => rw [Nat.repeat,String.toList_push,ih,List.replicate_succ']

theorem toList_margin_succ (level : Nat) :
    (margin (level+1)).toList = (margin level).toList ++ [' ',' ',' ',' '] := by
  rw [toList_margin,toList_margin,Nat.mul_add,← List.replicate_append_replicate]
  rfl

namespace Layout

def lead (layout : Layout) (level : Nat) (pad : String) : List Char :=
  match layout with
  | .inline => pad.toList
  | .indented => '\n' :: (margin (level+1)).toList

def gap (layout : Layout) (level : Nat) : List Char :=
  match layout with
  | .inline => [',',' ']
  | .indented => ',' :: '\n' :: (margin (level+1)).toList

def trail (layout : Layout) (level : Nat) (pad closing : String) : List Char :=
  match layout with
  | .inline => pad.toList ++ closing.toList
  | .indented => ',' :: '\n' :: ((margin level).toList ++ closing.toList)

variable {layout : Layout} {level : Nat} {opening pad closing : String}

theorem toList_intercalate_comma (item : String) (items : List String) :
    (", ".intercalate (item :: items)).toList =
      item.toList ++ items.flatMap fun i => ',' :: ' ' :: i.toList := by
  induction items generalizing item with
  | nil => simp
  | cons next items ih => simp [String.intercalate_cons_cons,ih]

theorem toList_foldl_lines (indent text item : String) (items : List String) :
    ((item :: items).foldl (fun text item => text ++ indent ++ item ++ ",\n") text).toList =
      text.toList ++ (indent.toList ++ (item.toList ++
        (items.flatMap (fun i => ',' :: '\n' :: (indent.toList ++ i.toList)) ++ [',','\n']))) := by
  induction items generalizing text item with
  | nil => simp
  | cons next items ih =>
    rw [List.foldl_cons,ih]
    simp

theorem toList_enclose (item : String) (items : List String) :
    (layout.enclose level opening pad closing (item :: items)).toList =
      opening.toList ++ (layout.lead level pad ++ (item.toList ++
        (items.flatMap (fun i => layout.gap level ++ i.toList) ++
          layout.trail level pad closing))) := by
  cases layout with
  | inline =>
    simp only [enclose,lead,gap,trail,String.toList_append,toList_intercalate_comma]
    simp
  | indented =>
    simp only [enclose,lead,gap,trail,String.toList_append,toList_foldl_lines]
    simp

def brackets : List (String × String) := [("",")"),(" ","\x7d"),("","]")]

theorem stops_gap (layout : Layout) (level : Nat) (rest : List Char) :
    Stops (layout.gap level ++ rest) := by
  cases layout <;> simp [Stops,gap,isStop]

theorem stops_trail (layout : Layout) (level : Nat) (h : (pad,closing) ∈ brackets)
    (rest : List Char) : Stops (layout.trail level pad closing ++ rest) := by
  simp only [brackets,List.mem_cons,Prod.mk.injEq,List.not_mem_nil,or_false] at h
  rcases h with ⟨rfl,rfl⟩ | ⟨rfl,rfl⟩ | ⟨rfl,rfl⟩ <;> cases layout <;> simp [Stops,trail,isStop]

/-- The line behind a gap is deeper than the one behind the last item. -/
theorem gap_ne_trail (layout : Layout) (level : Nat) (h : (pad,closing) ∈ brackets)
    (r s : List Char) : layout.gap level ++ r ≠ layout.trail level pad closing ++ s := by
  simp only [brackets,List.mem_cons,Prod.mk.injEq,List.not_mem_nil,or_false] at h
  rcases h with ⟨rfl,rfl⟩ | ⟨rfl,rfl⟩ | ⟨rfl,rfl⟩ <;> cases layout <;>
    simp [gap,trail,toList_margin_succ]

section Items

variable {α : Type} {f : α → String}

theorem stops_items (items : List α) (layout : Layout) (level : Nat)
    (h : (pad,closing) ∈ brackets) (rest : List Char) :
    Stops (items.flatMap (fun a => layout.gap level ++ (f a).toList) ++
      (layout.trail level pad closing ++ rest)) := by
  cases items with
  | nil => exact stops_trail layout level h rest
  | cons a items =>
    simp only [List.flatMap_cons,List.append_assoc]
    exact stops_gap layout level _

/-- Items behind gaps are told one by one; a gap on one side is never a trail on the other. -/
theorem eq_of_items {as bs : List α} {r s : List Char} (h : (pad,closing) ∈ brackets)
    (hf : ∀ p ∈ as.zip bs, Tells f p.1 p.2)
    (he : as.flatMap (fun a => layout.gap level ++ (f a).toList) ++
        (layout.trail level pad closing ++ r) =
      bs.flatMap (fun a => layout.gap level ++ (f a).toList) ++
        (layout.trail level pad closing ++ s)) : as = bs := by
  induction as generalizing bs with
  | nil =>
    cases bs with
    | nil => rfl
    | cons b bs =>
      simp only [List.flatMap_cons,List.append_assoc] at he
      exact absurd he.symm (gap_ne_trail layout level h _ _)
  | cons a as ih =>
    cases bs with
    | nil =>
      simp only [List.flatMap_cons,List.append_assoc] at he
      exact absurd he (gap_ne_trail layout level h _ _)
    | cons b bs =>
      simp only [List.flatMap_cons,List.append_assoc,List.append_cancel_left_eq] at he
      rw [List.zip_cons_cons,List.forall_mem_cons] at hf
      obtain rfl : a = b :=
        hf.1 _ _ (stops_items as layout level h r) (stops_items bs layout level h s) he
      rw [ih hf.2 (List.append_cancel_left he)]

theorem eq_of_enclose {as bs : List α} {r s : List Char} (h : (pad,closing) ∈ brackets)
    (ha : as ≠ []) (hb : bs ≠ []) (hf : ∀ p ∈ as.zip bs, Tells f p.1 p.2)
    (he : (layout.enclose level opening pad closing (as.map f)).toList ++ r =
      (layout.enclose level opening pad closing (bs.map f)).toList ++ s) : as = bs := by
  obtain ⟨a,as,rfl⟩ := List.exists_cons_of_ne_nil ha
  obtain ⟨b,bs,rfl⟩ := List.exists_cons_of_ne_nil hb
  rw [List.map_cons,List.map_cons,toList_enclose,toList_enclose] at he
  simp only [List.append_assoc,List.append_cancel_left_eq,List.flatMap_map] at he
  -- with a gap before the first items, they are items like the others
  refine @eq_of_items layout level pad closing α f _ _ r s h hf ?_
  simp only [List.flatMap_cons,List.append_assoc,he]

theorem tells_list {as bs : List α} (ha : as ≠ []) (hb : bs ≠ [])
    (h : ∀ a ∈ as, ∀ b ∈ bs, Tells f a b) :
    Tells (fun items => layout.list level (items.map f)) as bs := by
  have hlist : ∀ items : List α, items ≠ [] →
      layout.list level (items.map f) = layout.enclose level "[" "" "]" (items.map f) := by
    intro items hi
    rw [list,if_neg (by simpa using hi)]
  intro r s _ _ he
  simp only [hlist as ha,hlist bs hb] at he
  refine eq_of_enclose (by simp [brackets]) ha hb ?_ he
  intro p hp
  exact h _ (List.of_mem_zip hp).1 _ (List.of_mem_zip hp).2

end Items

section Nodes

variable {α : Type} {a b : α}

structure FieldsTell (fields : α → List (String × String)) (a b : α) : Prop where
  keys : ∀ p ∈ (fields a).zip (fields b), p.1.1 = p.2.1
  values : ∀ p ∈ (fields a).zip (fields b), Tells id p.1.2 p.2.2
  eq : fields a = fields b → a = b

theorem tells_record {name : α → String} {fields : α → List (String × String)}
    (hn : name a = name b) (hne : ∀ a, fields a ≠ []) (h : FieldsTell fields a b) :
    Tells (fun x => layout.record level (name x) (fields x)) a b := by
  intro r s _ _ he
  apply h.eq
  simp only [hn] at he
  refine eq_of_enclose (by simp [brackets]) (hne a) (hne b) ?_ he
  rintro ⟨⟨k,v⟩,⟨l,w⟩⟩ hp r s hr hs he
  obtain rfl : k = l := h.keys _ hp
  simp only [String.toList_append,List.append_assoc,List.append_cancel_left_eq] at he
  obtain rfl : v = w := h.values _ hp r s hr hs he
  rfl

theorem tells_tagged {tag payload : α → String} (ha : '(' ∉ (tag a).toList)
    (hb : '(' ∉ (tag b).toList) (h : tag a = tag b → Tells payload a b) :
    Tells (fun x => layout.tagged level (tag x) (payload x)) a b := by
  have hrun : ∀ (t : String) (r : List Char), '(' ∉ t.toList →
      (t.toList ++ '(' :: r).takeWhile (· ≠ '(') = t.toList := by
    intro t r ht
    refine takeWhile_append_of_boundary ?_ (by simp)
    simpa using fun c hc => ne_of_mem_of_not_mem hc ht
  have htag : ∀ x r, (layout.tagged level (tag x) (payload x)).toList ++ r =
      (tag x).toList ++ '(' :: (layout.lead level "" ++ ((payload x).toList ++
        (layout.trail level "" ")" ++ r))) := by
    intro x r
    rw [tagged,toList_enclose]
    simp
  intro r s hr hs he
  have ht : tag a = tag b := by
    rw [htag,htag] at he
    rw [← String.toList_inj,← hrun _ _ ha,he,hrun _ _ hb]
  have hab : [a] = [b] := by
    refine @eq_of_enclose layout level (tag b ++ "(") "" ")" α payload _ _ r s (by simp [brackets])
      (by simp) (by simp) (by simpa using h ht) ?_
    simp only [ht] at he
    exact he
  exact (List.cons.inj hab).1

theorem tells_node {tag : α → String} {fields : α → List (String × String)} (suffix : String)
    (htag : ∀ a, '(' ∉ (tag a).toList) (hne : ∀ a, fields a ≠ [])
    (h : tag a = tag b → FieldsTell fields a b) :
    Tells (fun x => layout.tagged level (tag x)
      (layout.record (level+1) (tag x ++ suffix) (fields x))) a b := by
  refine tells_tagged (htag a) (htag b) fun ht => ?_
  exact tells_record (by rw [ht]) hne (h ht)

end Nodes

end Layout

end LetPrint.Text
