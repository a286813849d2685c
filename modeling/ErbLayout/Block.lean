import ErbLayout.Failure

/-!
The blocks that are open at a place of a template: elements and code blocks, on one stack. The depth
of the stack is the indentation level. Only what closes the innermost block may close anything.
-/

namespace ErbLayout

open Text

inductive Block where
  /-- An element, with its opening tag as it was laid out. -/
  | element (name written : Text)
  /-- A code block, with the code that opened it. -/
  | code (fragment : Text)
  deriving DecidableEq, Repr

def Block.label : Block → Text
  | .element name _ => name
  | .code fragment => fragment

/-- What closes a block: a tag closes the element of its name, a code fragment closes any code
block. -/
inductive Closer where
  | tag (name : Text)
  | code
  deriving DecidableEq, Repr

def Block.isClosedBy : Block → Closer → Bool
  | .element name _, .tag n => name == n
  | .code _, .code => true
  | _, _ => false

/-- The open blocks, innermost first. -/
abbrev BlockStack := List Block

namespace BlockStack

/-- The innermost block and the stack without it, when the closer, found as written, closes that
block. -/
def pop (closer : Closer) (found : Text) : BlockStack → Except Cause (Block × BlockStack)
  | [] => .error (.unmatched (some found) [])
  | top :: rest =>
    if top.isClosedBy closer then .ok (top, rest) else .error (.unmatched (some found) [top.label])

/-- The labels of the open blocks, outermost first. -/
def labels (s : BlockStack) : List Text := (s.map Block.label).reverse

/-- A document may only end when no block is open. -/
def finish : BlockStack → Except Cause Unit
  | [] => .ok ()
  | s => .error (.unmatched none s.labels)

end BlockStack

end ErbLayout
