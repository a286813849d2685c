import ErbLayout.Layout.Packing

/-!
Reflow of running text: its words are packed onto lines. Blanks at the start of the text put its
first line on a new line, and a blank line at its end is kept as a paragraph break.
-/

namespace ErbLayout.Layout

open Text

structure Reflowed where
  /-- The first line goes on a new line. -/
  onNewLine : Bool
  /-- A blank line follows the text. -/
  paragraphBreak : Bool
  lines : List Text
  deriving DecidableEq, Repr

/-- Running text broken into lines of `width` columns; the first has `inlineWidth` columns when it
goes on the current line, and the last word is followed by `tail` columns. -/
def reflow (measure : Text → Nat) (width inlineWidth tail : Nat) (s : Text) : Reflowed where
  onNewLine := startsBlank s
  paragraphBreak := 1 < (trailingBlanks s).count '\n'
  lines := pack measure (if startsBlank s then width else inlineWidth) width tail (words s)

end ErbLayout.Layout
