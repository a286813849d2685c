import ErbLayout.Filter.Octet
import ErbLayout.Filter.Switch
import ErbLayout.Text.Number

/-!
Copies of rows that may be numbered, made visible, or rid of repeated empty rows; and rows folded at
a number of columns, perhaps after the last blank that fits.
-/

namespace ErbLayout.Filter

inductive Numbering where
  | off
  | all
  | filled
  deriving DecidableEq, Repr

structure Copying where
  numbering : Numbering := .off
  /-- Of empty rows next to each other one stays. -/
  squeezed : Bool := false
  /-- A dollar sign shows the end of a row. -/
  ends : Bool := false
  tabs : Bool := false
  /-- Controls and characters outside ASCII are spelled out. -/
  controls : Bool := false
  deriving DecidableEq, Repr

namespace Copying

def switches : List Switch :=
  [⟨"all", ['A'], ["show-all"], .nothing⟩, ⟨"filled", ['b'], ["number-nonblank"], .nothing⟩,
    ⟨"e", ['e'], [], .nothing⟩, ⟨"ends", ['E'], ["show-ends"], .nothing⟩,
    ⟨"number", ['n'], ["number"], .nothing⟩, ⟨"squeeze", ['s'], ["squeeze-blank"], .nothing⟩,
    ⟨"t", ['t'], [], .nothing⟩, ⟨"tabs", ['T'], ["show-tabs"], .nothing⟩,
    ⟨"unbuffered", ['u'], [], .nothing⟩, ⟨"controls", ['v'], ["show-nonprinting"], .nothing⟩]

def ofReading (r : Reading) : Copying where
  numbering := if r.has "filled" then .filled else if r.has "number" then .all else .off
  squeezed := r.has "squeeze"
  ends := r.has "ends" || r.has "e" || r.has "all"
  tabs := r.has "tabs" || r.has "t" || r.has "all"
  controls := r.has "controls" || r.has "e" || r.has "t" || r.has "all"

def spelled (c : Char) : Text :=
  if c.toNat < 32 then ['^', Char.ofNat (c.toNat + 64)] else if c = '\x7f' then ['^', '?'] else [c]

def shown (style : Copying) (c : Char) : Text :=
  if c = '\t' then if style.tabs then ['^', 'I'] else [c]
  else if !style.controls then [c]
  else if c.toNat < 128 then spelled c
  else ['M', '-'] ++ spelled (Char.ofNat (c.toNat - 128))

/-- What a row holds, as it is shown. A carriage return before a shown end is spelled out. -/
def content (style : Copying) (row : Row) : Text :=
  if style.ends && !style.controls && row.ended && row.content.getLast? == some '\r' then
    row.content.dropLast.flatMap style.shown ++ ['^', 'M']
  else row.content.flatMap style.shown

def number (n : Nat) : Text :=
  let digits := Nat.toDigits 10 n
  List.replicate (6 - digits.length) ' ' ++ digits ++ ['\t']

/-- Rows as they are copied, `n` having been numbered before, and the last having been empty if
`empty`. -/
def apply (style : Copying) (n : Nat) (empty : Bool) : List Row → Text
  | [] => []
  | row :: rest =>
    if row.content.isEmpty && empty && style.squeezed then apply style n true rest
    else
      let numbered := match style.numbering with
        | .off => false
        | .all => true
        | .filled => !row.content.isEmpty
      let ending := if !row.ended then [] else if style.ends then ['$', lineFeed] else [lineFeed]
      (if numbered then number (n + 1) else []) ++ style.content row ++ ending
        ++ apply style (if numbered then n + 1 else n) row.content.isEmpty rest

end Copying

structure Folding where
  width : Nat := 80
  atBlanks : Bool := false
  /-- Every character counts for one column. -/
  plain : Bool := false
  deriving DecidableEq, Repr

namespace Folding

def switches : List Switch :=
  [⟨"plain", ['b'], ["bytes"], .nothing⟩, ⟨"blanks", ['s'], ["spaces"], .nothing⟩,
    ⟨"width", ['w'], ["width"], .value⟩, ⟨"width", "0123456789".toList, [], .rest⟩]

/-- The fold that switches ask for; the width must be a positive number. -/
def ofReading? (r : Reading) : Option Folding :=
  ((r.values "width").mapM (Text.nat? (Text.wordLimit - 9))).bind fun widths =>
    if widths.contains 0 then none
    else some { width := widths.getLastD 80, atBlanks := r.has "blanks", plain := r.has "plain" }

/-- The column after a character: a tab leads to the next multiple of eight. -/
def nextColumn (style : Folding) (column : Nat) (c : Char) : Nat :=
  if style.plain then column + 1
  else if c = '\x08' then column - 1
  else if c = '\r' then 0
  else if c = '\t' then column + 8 - column % 8
  else column + 1

def columnOf (style : Folding) (row : Text) : Nat := row.foldl style.nextColumn 0

def cutBlank? (row : Text) : Option (Text × Text) :=
  let tail := row.reverse.takeWhile fun c => c != ' ' && c != '\t'
  if tail.length = row.length then none
  else some (row.take (row.length - tail.length), tail.reverse)

/-- The rows that are complete once a character is put at the end of `row`, and the row that is
not. -/
def place (style : Folding) : Nat → Text → Char → Text × Text
  | 0, row, c => ([], row ++ [c])
  | fuel + 1, row, c =>
    if style.columnOf (row ++ [c]) ≤ style.width then ([], row ++ [c])
    else
      match if style.atBlanks then cutBlank? row else none with
      | some (done, rest) =>
        let (out, row) := style.place fuel rest c
        (done ++ lineFeed :: out, row)
      | none =>
        if row.isEmpty then ([], [c])
        else
          let (out, row') := style.place fuel [] c
          (row ++ lineFeed :: out, row')

/-- A text with every row folded, the row so far being `row`. -/
def applyFrom (style : Folding) (row : Text) : Text → Text
  | [] => row
  | c :: r =>
    if c = lineFeed then row ++ c :: style.applyFrom [] r
    else
      let (out, row) := style.place (row.length + 1) row c
      out ++ style.applyFrom row r

end Folding

end ErbLayout.Filter
