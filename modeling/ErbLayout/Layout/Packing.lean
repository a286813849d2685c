import ErbLayout.Text.Blank

/-!
Lines and the room on them. The room at a depth is the line width less two columns a level, or the
whole line width when less than forty columns would be left. Words are packed onto lines greedily: a
word goes on the current line when it fits there with a space before it, and starts a new line
otherwise.
-/

namespace ErbLayout.Layout

open Text

def indentation (depth : Nat) : Text := List.replicate (2 * depth) ' '

/-- The least room for which indentation is taken off the line width. -/
def leastRoom : Nat := 40

def available (lineWidth depth : Nat) : Nat :=
  if lineWidth - 2 * depth < leastRoom then lineWidth else lineWidth - 2 * depth

def onNewLine (depth : Nat) (s : Text) : Text := '\n' :: (indentation depth ++ trim s)

/-- Words packed onto lines: `room` is the room on the current line, which holds `line` and has
`used` columns taken; later lines have room for `width` columns. The last word takes `tail` columns
more. Columns are natural numbers, and words of 64 bits hold them as long as the columns of a line,
with the space, the next word and `tail`, add up to less than `2 ^ 64`: that is so for every text
that fits into memory unless `tail` itself is as large. -/
def packFrom (measure : Text → Nat) (width tail : Nat) : Nat → Text → Nat → List Text → List Text
  | _, line, _, [] => if line.isEmpty then [] else [line]
  | room, line, used, word :: words =>
    let columns := measure word + (if words.isEmpty then tail else 0)
    if line.isEmpty then packFrom measure width tail room word columns words
    else if used + 1 + columns ≤ room then
      packFrom measure width tail room (line ++ ' ' :: word) (used + 1 + columns) words
    else line :: packFrom measure width tail width word columns words

/-- Words packed onto lines, the first with room for `firstWidth` columns and the others for
`width`. -/
def pack (measure : Text → Nat) (firstWidth width tail : Nat) (words : List Text) : List Text :=
  packFrom measure width tail firstWidth [] 0 words

end ErbLayout.Layout
