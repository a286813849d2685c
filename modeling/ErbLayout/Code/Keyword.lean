import ErbLayout.Text.Basic
import ErbLayout.Text.Wordlike

/-!
Keywords at the start of a code fragment. A keyword ends at the end of the text or before a
character that belongs to no word.
-/

namespace ErbLayout.Code

open Text

/-- Whether a word that ends right before the text ends there. -/
def atWordEnd (s : Text) : Bool := !s.head?.any isWordlike

def afterKeyword? (keyword s : Text) : Option Text := (after? keyword s).filter atWordEnd

def leadingKeyword? (keywords : List Text) (s : Text) : Option Text :=
  keywords.find? fun k => (afterKeyword? k s).isSome

def standaloneKeywords : List Text := ["yield".toList, "next".toList]

def closerFragments : List Text := ["end".toList, ['}']]

def reopenerFragments : List Text := ["else".toList, "ensure".toList]

def reopenerKeywords : List Text := ["elsif".toList, "when".toList, "in".toList, "rescue".toList]

def isStandalone (code : Text) : Bool := (leadingKeyword? standaloneKeywords code).isSome

def isCloser (code : Text) : Bool := closerFragments.contains code

def isReopener (code : Text) : Bool :=
  reopenerFragments.contains code
    || reopenerKeywords.any fun k => (afterKeyword? k code).any fun rest => !rest.contains '\n'

end ErbLayout.Code
