import ErbLayout.Text.Quoted

/-!
Why and where the layout of a template fails. A cause says what is wrong; a failure adds the file,
the line and the innermost open block. Each has one message.
-/

namespace ErbLayout

open Text

inductive Cause where
  /-- Blanks follow the equals sign of an attribute. -/
  | badAttribute (text : Text)
  | unknownTag (name : Text)
  /-- What was found, or the end of the document when nothing was, does not close the blocks with
  these labels. -/
  | unmatched (found : Option Text) (labels : List Text)
  | unrecognized (text : Text)
  deriving DecidableEq, Repr

def Cause.message : Cause → Text
  | .badAttribute text =>
    "Bad attribute, please fix spaces after the equal sign: ".toList ++ quoted text
  | .unknownTag name => "Unknown tag ".toList ++ quoted name
  | .unmatched (some found) [] =>
    "Unmatched close tag ".toList ++ quoted found ++ ", but nothing was open".toList
  | .unmatched (some found) labels =>
    "Unmatched close tag ".toList ++ quoted found ++ ", but ".toList ++
      quoted (join [',', ' '] labels) ++ " was on the stack".toList
  | .unmatched none labels => "Unclosed at end of document: ".toList ++ join [',', ' '] labels
  | .unrecognized text => "Unrecognized content: ".toList ++ quoted text

def Cause.isUnmatched : Cause → Bool
  | .unmatched .. => true
  | _ => false

structure Failure where
  cause : Cause
  filename : Text
  /-- The line in the source, counted from one. -/
  line : Nat
  /-- The label of the innermost open block. -/
  context : Option Text
  deriving DecidableEq, Repr

def Failure.message (f : Failure) : Text :=
  let place := f.filename ++ ':' :: Nat.toDigits 10 f.line
  let inside :=
    match f.context with
    | some label => ":in `".toList ++ label ++ ['\'']
    | none => []
  place ++ inside ++ [':', ' '] ++ f.cause.message

end ErbLayout
