import LetPrint.Parse.Chain
import LetPrint.Parse.Form
import LetPrint.Proofs.Chunks
import LetPrint.Proofs.Nesting

/-!
Ranges by index. A part of a range is taken from one index to another, which is refused if they are
out of order or outside the range, and depths are counted in 32 bits, which is refused if a depth
does not fit. In a range of fewer than 2^31 tokens neither ever happens, and what is found by index
is what is found without.
-/

set_option autoImplicit false

namespace LetPrint

/-- The tokens of a range from the index `start` up to the index `stop`. -/
def slice? (start stop : Nat) (ts : List Token) : Option (List Token) :=
  if start ≤ stop ∧ stop ≤ ts.length then some ((ts.take stop).drop start) else none

/-- A depth after a change, if it still fits into 32 bits. -/
def count? (depth change : Int) : Option Int :=
  if -0x80000000 ≤ depth + change ∧ depth + change < 0x80000000 then some (depth + change) else none

section Bounds

variable {ts : List Token}

theorem slice?_append {start stop : Nat} {before mid after : List Token}
    (hstart : start = before.length) (hstop : stop = before.length + mid.length) :
    slice? start stop (before ++ mid ++ after) = some mid := by
  have hle : before.length ≤ before.length + mid.length ∧
      before.length + mid.length ≤ (before ++ mid ++ after).length := by
    simp only [List.length_append]; omega
  rw [slice?,hstart,hstop,if_pos hle,← List.length_append,List.take_left,List.drop_left]

theorem slice?_tail (t : Token) (ts : List Token) :
    slice? 1 (t :: ts).length (t :: ts) = some ts := by
  simp [slice?]

theorem bounds_of_slice? {start stop : Nat} {part : List Token}
    (h : slice? start stop ts = some part) :
    start ≤ stop ∧ stop ≤ ts.length ∧ part.length = stop - start := by
  obtain ⟨hle,hpart⟩ := Option.ite_none_right_eq_some.1 h
  obtain rfl := Option.some.inj hpart
  refine ⟨hle.1,hle.2,?_⟩
  simp only [List.length_drop,List.length_take]; omega

theorem TokenKind.natAbs_nesting_le (k : TokenKind) : k.nesting.natAbs ≤ 1 := by
  cases k <;> decide

theorem count?_eq {depth change : Int} (hc : change.natAbs ≤ 1) (hd : depth.natAbs + 1 < 1 <<< 31) :
    count? depth change = some (depth + change) := by
  rw [count?,if_pos (by omega)]

end Bounds

section Groups

def closesLastByIndex? (last : Nat) (depth : Int) (index : Nat) : List Token → Option Bool
  | [] => some (depth == 0)
  | t :: ts => do
    let depth ← count? depth t.kind.nesting
    if depth = 0 ∧ index < last then return false
    closesLastByIndex? last depth (index+1) ts

def isGroupByIndex? (ts : List Token) : Option Bool :=
  match ts.head?, ts.getLast? with
  | some first, some last =>
    if ts.length < 2 ∨ first.kind ≠ .lparen ∨ last.kind ≠ .rparen then some false
    else closesLastByIndex? (ts.length - 1) 0 0 ts
  | _, _ => some false

theorem closesLastByIndex?_eq {last index : Nat} {depth : Int} {ts : List Token}
    (hd : depth.natAbs + ts.length < 1 <<< 31) (hi : index + ts.length = last + 1) :
    closesLastByIndex? last depth index ts = some (closesLast depth ts) := by
  induction ts generalizing depth index with
  | nil => rfl
  | cons t ts ih =>
    have hn := t.kind.natAbs_nesting_le
    simp only [List.length_cons] at hd hi
    have ih := ih (show (depth + t.kind.nesting).natAbs + ts.length < 1 <<< 31 by omega)
      (show index + 1 + ts.length = last + 1 by omega)
    rw [closesLastByIndex?,count?_eq hn (by omega)]
    simp only [Option.bind_eq_bind,Option.bind_some,ih]
    cases ts with
    | nil =>
      have hlast : ¬ index < last := by simp only [List.length_nil] at hi; omega
      simp [closesLast,hlast]
    | cons u us =>
      have hlast : index < last := by simp only [List.length_cons] at hi; omega
      by_cases h0 : depth + t.kind.nesting = 0
      · simp [closesLast,h0,hlast]
      · simp [closesLast,h0]

theorem isGroupByIndex?_eq {ts : List Token} (h : ts.length < 1 <<< 31) :
    isGroupByIndex? ts = some (isGroup ts) := by
  cases ts with
  | nil => rfl
  | cons t ts =>
    obtain ⟨last,hlast⟩ : ∃ last, (t :: ts).getLast? = some last :=
      ⟨_,List.getLast?_eq_some_getLast (by simp)⟩
    simp only [isGroupByIndex?,List.head?_cons,hlast]
    split
    · rename_i hno
      rcases hno with hlen | hl | hr
      · have hg : isGroup (t :: ts) = false := by
          rw [Bool.eq_false_iff]
          intro hg
          have hlen' := two_le_length_of_isGroup hg
          omega
        rw [hg]
      · simp [isGroup,hl]
      · simp [isGroup,hlast,hr]
    · rename_i hyes
      simp only [not_or,Decidable.not_not] at hyes
      rw [closesLastByIndex?_eq (by simpa using h) (by simp)]
      simp [isGroup,hlast,hyes]

end Groups

section Splits

/-- The search over the tokens still to the left, the nearest first; the index of the next of them
is how many there are behind it. -/
def Split.searchByIndex? (kinds : List TokenKind) (ts : List Token) (depth : Int) :
    List Token → Option (Option Split)
  | [] => some none
  | t :: before =>
    if cutsAt kinds depth t then do
      let left ← slice? 0 before.length ts
      let right ← slice? (before.length+1) ts.length ts
      return some ⟨left,t,right⟩
    else do searchByIndex? kinds ts (← count? depth (-t.kind.nesting)) before

def Split.rightmostByIndex? (kinds : List TokenKind) (ts : List Token) : Option (Option Split) :=
  searchByIndex? kinds ts 0 ts.reverse

theorem Split.searchByIndex?_eq {kinds : List TokenKind} {depth : Int} {before right : List Token}
    (hd : depth.natAbs + before.length < 1 <<< 31) :
    searchByIndex? kinds (before.reverse ++ right) depth before =
      some (search kinds depth right before) := by
  induction before generalizing depth right with
  | nil => rfl
  | cons t before ih =>
    have hn := t.kind.natAbs_nesting_le
    simp only [List.length_cons] at hd
    have hleft : slice? 0 before.length ((t :: before).reverse ++ right) =
        some before.reverse := by
      have hs := @slice?_append 0 before.length [] before.reverse ([t] ++ right) rfl (by simp)
      simpa using hs
    have hright : slice? (before.length+1) ((t :: before).reverse ++ right).length
        ((t :: before).reverse ++ right) = some right := by
      have hs := @slice?_append (before.length+1) (before.length+1+right.length)
        (t :: before).reverse right [] (by simp) (by simp)
      simpa [Nat.add_comm,Nat.add_left_comm] using hs
    rw [searchByIndex?,search,hleft,hright]
    split
    · rfl
    · rw [count?_eq (by omega) (by omega)]
      have ih := @ih (depth - t.kind.nesting) (t :: right) (by omega)
      simpa [Int.sub_eq_add_neg] using ih

theorem Split.rightmostByIndex?_eq {ts : List Token} (h : ts.length < 1 <<< 31)
    (kinds : List TokenKind) : rightmostByIndex? kinds ts = some (rightmost? kinds ts) := by
  have hs := @searchByIndex?_eq kinds 0 ts.reverse [] (by simpa using h)
  simpa [rightmostByIndex?,rightmost?] using hs

theorem Split.length_left_of_searchByIndex? {kinds : List TokenKind} {ts before : List Token}
    {depth : Int} {s : Split} (h : searchByIndex? kinds ts depth before = some (some s)) :
    s.left.length < ts.length := by
  induction before generalizing depth with
  | nil => cases h
  | cons t before ih =>
    rw [searchByIndex?] at h
    split at h
    · obtain ⟨left,hleft,h⟩ := Option.bind_eq_some_iff.1 h
      obtain ⟨right,hright,h⟩ := Option.bind_eq_some_iff.1 h
      cases h
      have hl := bounds_of_slice? hleft
      have hr := bounds_of_slice? hright
      simp only
      omega
    · obtain ⟨depth,-,h⟩ := Option.bind_eq_some_iff.1 h
      exact ih h

end Splits

section Pieces

def lastPiece? (start : Nat) (pieces : List (List Token)) (ts : List Token) :
    Option (List (List Token)) :=
  if start < ts.length then do return pieces ++ [← slice? start ts.length ts] else some pieces

/-- The pieces of a range, of which some were cut off already in front of the index `start`, and no
delimiter is between that and `index`. -/
def chunksFromIndex? (delimiter : TokenKind) (limit : Option Nat) (ts : List Token)
    (start index : Nat) (pieces : List (List Token)) : List Token → Option (List (List Token))
  | [] => lastPiece? start pieces ts
  | t :: todo =>
    if limit.any fun most => most ≤ pieces.length + 1 then lastPiece? start pieces ts
    else if t.kind = delimiter then do
      let piece ← slice? start index ts
      chunksFromIndex? delimiter limit ts (index+1) (index+1) (pieces ++ [piece]) todo
    else chunksFromIndex? delimiter limit ts start (index+1) pieces todo

def chunksByIndex? (delimiter : TokenKind) (limit : Option Nat) (ts : List Token) :
    Option (List (List Token)) := chunksFromIndex? delimiter limit ts 0 0 [] ts

theorem lastPiece?_eq (done rest : List Token) (pieces : List (List Token)) :
    lastPiece? done.length pieces (done ++ rest) = some (pieces ++ lastChunk rest) := by
  by_cases hn : rest = []
  · simp [lastPiece?,lastChunk,hn]
  · have hpos := List.length_pos_iff.2 hn
    have hs := @slice?_append done.length (done ++ rest).length done rest [] rfl (by simp)
    rw [List.append_nil] at hs
    rw [lastPiece?,if_pos (by simp only [List.length_append]; omega),hs,lastChunk,if_neg hn]
    rfl

/-- A limit on the pieces allows one cut less, and one less again for each piece cut off. -/
theorem chunksFromIndex?_eq {delimiter : TokenKind} {limit : Option Nat}
    {done free todo : List Token} {pieces : List (List Token)}
    (hf : ∀ t ∈ free, t.kind ≠ delimiter) :
    chunksFromIndex? delimiter limit (done ++ (free ++ todo)) done.length (done ++ free).length
        pieces todo =
      some (pieces ++
        cutAt delimiter (limit.map fun most => most - 1 - pieces.length) (free ++ todo)) := by
  induction todo generalizing done free pieces with
  | nil =>
    rw [List.append_nil,chunksFromIndex?,lastPiece?_eq,cutAt_of_free hf]
  | cons t todo ih =>
    have hslice : slice? done.length (done ++ free).length (done ++ (free ++ t :: todo)) =
        some free := by
      rw [← List.append_assoc]
      exact slice?_append rfl (List.length_append ..)
    rw [chunksFromIndex?,hslice]
    split
    · rename_i hstop
      have hcuts : (limit.map fun most => most - 1 - pieces.length) = some 0 := by
        cases limit with
        | none => cases hstop
        | some most =>
          have hle : most ≤ pieces.length + 1 := of_decide_eq_true hstop
          rw [Option.map_some,Option.some.injEq]; omega
      rw [lastPiece?_eq,hcuts,cutAt_of_no_cuts]
    · rename_i hgo
      split
      · rename_i ht
        have hcuts : (limit.map fun most => most - 1 - pieces.length) ≠ some 0 := by
          cases limit with
          | none => simp
          | some most =>
            have hlt : ¬ most ≤ pieces.length + 1 := fun hle => hgo (decide_eq_true hle)
            rw [Option.map_some,Ne,Option.some.injEq]; omega
        have hless : (limit.map fun most => most - 1 - (pieces ++ [free]).length) =
            (limit.map fun most => most - 1 - pieces.length).map fun n => n - 1 := by
          cases limit with
          | none => rfl
          | some most => simp only [Option.map_some,List.length_append,List.length_singleton]; rfl
        have ih := @ih (done ++ free ++ [t]) [] (pieces ++ [free]) (by simp)
        rw [hless] at ih
        rw [cutAt_cons_delimiter hcuts hf ht]
        simpa [Nat.add_assoc] using ih
      · rename_i ht
        have hf : ∀ u ∈ free ++ [t], u.kind ≠ delimiter := by
          simpa [or_imp,forall_and,ht] using hf
        have ih := @ih done (free ++ [t]) pieces hf
        simpa [Nat.add_assoc] using ih

theorem chunksByIndex?_eq (delimiter : TokenKind) (limit : Option Nat) (ts : List Token) :
    chunksByIndex? delimiter limit ts = some (chunks delimiter limit ts) :=
  @chunksFromIndex?_eq delimiter limit [] [] ts [] (by simp)

end Pieces

section Readings

variable {ts : List Token}

def Form.ofRangeByIndex? (ts : List Token) : Option Form :=
  match loneLiteral? ts with
  | some t => some (literal t)
  | none => do
    if ← isGroupByIndex? ts then return group (← slice? 1 (ts.length - 1) ts)
    if ts.any fun t => t.kind.isArithmetic then return operation
    return if ts.isEmpty then missing else formless

theorem slice?_interior (h : isGroup ts = true) :
    slice? 1 (ts.length - 1) ts = some (interior ts) := by
  obtain ⟨l,r,hts,-⟩ := exists_enclosed_of_isGroup h
  have hlen := congrArg List.length hts
  simp only [List.length_cons,List.length_append,List.length_nil] at hlen
  have hs := @slice?_append 1 (ts.length - 1) [l] (interior ts) [r] rfl
    (by simp only [List.length_singleton]; omega)
  rwa [List.append_assoc,List.singleton_append,← hts] at hs

theorem Form.ofRangeByIndex?_eq (h : ts.length < 1 <<< 31) :
    ofRangeByIndex? ts = some (ofRange ts) := by
  rw [ofRangeByIndex?,ofRange]
  cases loneLiteral? ts with
  | some t => rfl
  | none =>
    simp only [isGroupByIndex?_eq h,Option.bind_eq_bind,Option.bind_some]
    cases hg : isGroup ts with
    | true => simp [slice?_interior hg]
    | false =>
      simp only [Bool.false_eq_true,if_false]
      split
      · rfl
      · split <;> rfl

namespace Chain

def peelByIndex? (tier : Tier) (rest : List Token) (links : List Link) :
    Option (Except ExpressionFault Chain) :=
  match h : Split.rightmostByIndex? tier.operators rest with
  | none => none
  | some none => some (.ok ⟨tier,rest,links⟩)
  | some (some s) =>
    have := Split.length_left_of_searchByIndex? h
    match BinaryOperator.ofKind? s.operator.kind with
    | none => some (.error .notAnOperator)
    | some op => peelByIndex? tier s.left (⟨op,s.right⟩ :: links)
termination_by rest.length

def ofTiersByIndex? (ts : List Token) : List Tier → Option (Except ExpressionFault Chain)
  | [] => some (.error .noTopLevelOperator)
  | tier :: tiers => do
    match ← peelByIndex? tier ts [] with
    | .error fault => return .error fault
    | .ok chain => if chain.links = [] then ofTiersByIndex? ts tiers else return .ok chain

def ofRangeByIndex? (ts : List Token) : Option (Except ExpressionFault Chain) :=
  ofTiersByIndex? ts Tier.all

theorem peelByIndex?_eq {tier : Tier} {rest : List Token} {links : List Link}
    (h : rest.length < 1 <<< 31) :
    peelByIndex? tier rest links = some (peel tier rest links) := by
  fun_induction peel tier rest links with
  | case1 rest links hs =>
    have hi := (Split.rightmostByIndex?_eq h tier.operators).trans (congrArg some hs)
    rw [peelByIndex?]
    split <;> simp_all
  | case2 rest links s hs hl hop =>
    have hi := (Split.rightmostByIndex?_eq h tier.operators).trans (congrArg some hs)
    rw [peelByIndex?]
    split <;> simp_all
  | case3 rest links s hs hl op hop ih =>
    have hi := (Split.rightmostByIndex?_eq h tier.operators).trans (congrArg some hs)
    have ih := ih (by omega)
    rw [peelByIndex?]
    split <;> simp_all

theorem ofTiersByIndex?_eq (h : ts.length < 1 <<< 31) (tiers : List Tier) :
    ofTiersByIndex? ts tiers = some (ofTiers ts tiers) := by
  induction tiers with
  | nil => rfl
  | cons tier tiers ih =>
    rw [ofTiersByIndex?,ofTiers,peelByIndex?_eq h,Option.bind_eq_bind,Option.bind_some]
    cases peel tier ts [] with
    | error fault => rfl
    | ok chain =>
      simp only
      split
      · exact ih
      · rfl

theorem ofRangeByIndex?_eq (h : ts.length < 1 <<< 31) :
    ofRangeByIndex? ts = some (ofRange ts) := ofTiersByIndex?_eq h Tier.all

end Chain

end Readings

end LetPrint
