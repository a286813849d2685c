import ErbLayout.Text.Basic

/-!
What happens during the layout of a template, step by step.
-/

namespace ErbLayout

/-- One step of a layout. Depths are those after the step. -/
inductive Event where
  | push (label : Text) (depth : Nat)
  | pop (label : Text) (depth : Nat)
  | append (output : Text) (depth : Nat)
  | text (content : Text)
  | codeIn (code : Text) (width : Nat)
  | codeOut (code : Option Text)
  deriving DecidableEq, Repr

end ErbLayout
