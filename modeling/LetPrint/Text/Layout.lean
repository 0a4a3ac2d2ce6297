/-!
Two layouts of structured text. Inline text is one line with commas between the items; indented
text gives every item a line of its own, four spaces deeper than its brackets and with a comma after
it.
-/

set_option autoImplicit false

namespace LetPrint.Text

inductive Layout where
  | inline
  | indented
  deriving DecidableEq, Repr

def margin (level : Nat) : String := "".pushn ' ' (4*level)

/-- Items between two brackets that stand at `level`; `pad` keeps inline items off the brackets. -/
def Layout.enclose (layout : Layout) (level : Nat) (opening pad closing : String)
    (items : List String) : String :=
  match layout with
  | .inline => opening ++ pad ++ ", ".intercalate items ++ pad ++ closing
  | .indented =>
    items.foldl (fun text item => text ++ margin (level+1) ++ item ++ ",\n") (opening ++ "\n") ++
      margin level ++ closing

def Layout.tagged (layout : Layout) (level : Nat) (name item : String) : String :=
  layout.enclose level (name ++ "(") "" ")" [item]

def Layout.record (layout : Layout) (level : Nat) (name : String)
    (fields : List (String × String)) : String :=
  layout.enclose level (name ++ " \x7b") " " "\x7d" (fields.map fun f => f.1 ++ ": " ++ f.2)

def Layout.list (layout : Layout) (level : Nat) (items : List String) : String :=
  if items.isEmpty then "[]" else layout.enclose level "[" "" "]" items

end LetPrint.Text
