import LetPrint.Token

/-!
A cursor on a text: an offset in bytes of UTF-8 that may be set anywhere, with the tokens collected
so far. Text can be read at the cursor only where the offset is a character boundary of the text.
-/

set_option autoImplicit false

namespace LetPrint

def byteSize : List Char → Nat
  | [] => 0
  | c :: cs => c.utf8Size + byteSize cs

@[simp] theorem byteSize_append (cs ds : List Char) :
    byteSize (cs ++ ds) = byteSize cs + byteSize ds := by
  induction cs with
  | nil => simp [byteSize]
  | cons c cs ih => simp [byteSize,ih,Nat.add_assoc]

theorem length_le_byteSize (cs : List Char) : cs.length ≤ byteSize cs := by
  induction cs with
  | nil => simp [byteSize]
  | cons c cs ih =>
    have hc := c.utf8Size_pos
    simp only [byteSize,List.length_cons]; omega

/-- The text after the first `n` bytes, if they are whole characters. -/
def dropBytes? : Nat → List Char → Option (List Char)
  | 0, cs => some cs
  | _+1, [] => none
  | n+1, c :: cs => if c.utf8Size ≤ n+1 then dropBytes? (n+1-c.utf8Size) cs else none

theorem dropBytes?_byteSize_append (cs rest : List Char) :
    dropBytes? (byteSize cs) (cs ++ rest) = some rest := by
  induction cs with
  | nil => simp [byteSize,dropBytes?]
  | cons c cs ih =>
    have hc := c.utf8Size_pos
    obtain ⟨n,hn⟩ : ∃ n, byteSize (c :: cs) = n+1 :=
      ⟨_,(Nat.succ_pred (by simp [byteSize]; omega)).symm⟩
    have hs : n+1-c.utf8Size = byteSize cs := by rw [← hn,byteSize]; omega
    rw [hn,List.cons_append,dropBytes?,if_pos (by rw [← hn,byteSize]; omega),hs,ih]

theorem exists_of_dropBytes? {n : Nat} {cs rest : List Char} (h : dropBytes? n cs = some rest) :
    ∃ before, cs = before ++ rest ∧ byteSize before = n := by
  induction cs generalizing n with
  | nil =>
    cases n with
    | zero => cases h; exact ⟨[],rfl,rfl⟩
    | succ n => cases h
  | cons c cs ih =>
    cases n with
    | zero => cases h; exact ⟨[],rfl,rfl⟩
    | succ n =>
      unfold dropBytes? at h
      split at h
      · obtain ⟨before,rfl,hb⟩ := ih h
        exact ⟨c :: before,rfl,by simp only [byteSize]; omega⟩
      · cases h

structure Cursor where
  source : List Char
  offset : Nat
  tokens : List Token
  deriving DecidableEq, Repr

namespace Cursor

def start (source : List Char) : Cursor := ⟨source,0,[]⟩

/-- An offset is a 64-bit number; a step that leaves them is refused. -/
def advance? (n : Nat) (cursor : Cursor) : Option Cursor :=
  if cursor.offset+n < 1 <<< 64 then some {cursor with offset := cursor.offset+n} else none

def push (t : Token) (cursor : Cursor) : Cursor := {cursor with tokens := cursor.tokens ++ [t]}

def remainder? (cursor : Cursor) : Option (List Char) := dropBytes? cursor.offset cursor.source

/-- The character at the cursor, a null character at the end of the text. -/
def current? (cursor : Cursor) : Option Char := cursor.remainder?.map fun cs => cs.headD '\x00'

def atEnd (cursor : Cursor) : Bool := byteSize cursor.source ≤ cursor.offset

/-- Text can be read exactly where the text before the cursor is a list of whole characters. -/
theorem remainder?_eq_some_iff {cursor : Cursor} {rest : List Char} :
    cursor.remainder? = some rest ↔
      ∃ before, cursor.source = before ++ rest ∧ byteSize before = cursor.offset := by
  constructor
  · exact exists_of_dropBytes?
  · rintro ⟨before,hs,hb⟩
    rw [remainder?,hs,← hb,dropBytes?_byteSize_append]

end Cursor

end LetPrint
