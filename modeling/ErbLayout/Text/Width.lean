import ErbLayout.Text.Advance
import ErbLayout.Text.Basic
import ErbLayout.Text.Pictograph

/-!
The display width of a text: the number of columns it takes on a terminal. Most characters take the
columns they take alone. Characters that are drawn together take fewer: picture sequences with
joiners, skin tones, selectors or flag letters, and the ligatures of some scripts. The text is read
from right to left, and what was read to the right of a character decides how it is counted. A
control character takes one column, and a carriage return before a line feed takes none.
-/

namespace ErbLayout.Text

inductive Selector where
  | picture
  | text
  | full
  deriving DecidableEq, Repr

inductive Neighbour where
  | nothing
  | lineFeed
  | skinTone
  | flagLetter
  | flagLetters
  | picture
  | joinedPicture
  | joinedKeycap
  | joinedFlagLetter
  | joinedFlagEven
  | joinedFlagOdd
  | joinedTagEnd
  | joinedTagLetters (count : Nat)
  | joinedTagDigits (count : Nat)
  | alef
  | lamed
  | buginYa
  | buginVowelYa
  | tifinaghLetter
  | tifinaghJoined
  | lisuTone
  | orkhonI
  | coengLetter
  | kiratE
  | kiratAi
  deriving DecidableEq, Repr

/-- Letters of scripts that may be drawn together with a letter to their left, over the invisible
characters between the two. The vowel signs of Kirat Rai join only what stands right beside them. -/
def Neighbour.isLigature : Neighbour → Bool
  | .alef | .lamed | .buginYa | .buginVowelYa | .tifinaghLetter | .tifinaghJoined | .lisuTone
  | .orkhonI | .coengLetter => true
  | _ => false

/-- The reading state: the neighbour, whether a joiner was read after it, and a selector not yet
used. -/
structure Following where
  neighbour : Neighbour
  joiner : Bool := false
  selector : Option Selector := none
  deriving DecidableEq, Repr

def Following.none : Following := { neighbour := .nothing }

def Following.select (f : Following) (s : Selector) : Following :=
  if f.neighbour.isLigature
      || (s == .picture && (f.neighbour == .joinedPicture || f.neighbour == .joinedKeycap)) then
    { f with selector := some s }
  else { neighbour := .nothing, selector := some s }

def Following.unselect (f : Following) : Following :=
  if f.selector.isNone || f.neighbour.isLigature then { f with selector := Option.none }
  else Following.none

def within (lo hi : Nat) (c : Char) : Bool := lo ≤ c.toNat && c.toNat ≤ hi

def isFlagLetter (c : Char) : Bool := within 0x1F1E6 0x1F1FF c

def isSkinTone (c : Char) : Bool := within 0x1F3FB 0x1F3FF c

def isAlef (c : Char) : Bool :=
  Ranges.has [(0x622, 0x623), (0x625, 0x625), (0x627, 0x627), (0x671, 0x673), (0x675, 0x675),
    (0x773, 0x774), (0x870, 0x882)] c

def isLam (c : Char) : Bool :=
  Ranges.has [(0x644, 0x644), (0x6B5, 0x6B8), (0x76A, 0x76A), (0x8A6, 0x8A6), (0x8C7, 0x8C7)] c

def isCoengLetter (c : Char) : Bool :=
  Ranges.has [(0x1780, 0x1782), (0x1784, 0x1787), (0x1789, 0x178C), (0x178E, 0x1793),
    (0x1795, 0x1798), (0x179B, 0x179D), (0x17A0, 0x17A0), (0x17A2, 0x17A2), (0x17A7, 0x17A7),
    (0x17AB, 0x17AC), (0x17AF, 0x17AF)] c

def isTifinaghLetter (c : Char) : Bool := within 0x2D31 0x2D65 c || c.toNat == 0x2D6F

def isIgnorableMark (c : Char) : Bool :=
  Ranges.has [(0x34F, 0x34F), (0x17B4, 0x17B5), (0x180B, 0x180D), (0x180F, 0x180F),
    (0xFE00, 0xFE0F), (0xE0100, 0xE01EF)] c

def isJoinTransparent (c : Char) : Bool :=
  advance c == 0 && !Ranges.has
    [(0x605, 0x605), (0x890, 0x891), (0x8E2, 0x8E2), (0xD4E, 0xD4E), (0x1160, 0x11FF),
      (0x180E, 0x180E), (0x200C, 0x200D), (0x2065, 0x2069), (0x3164, 0x3164), (0xA8FA, 0xA8FA),
      (0xD7B0, 0xD7C6), (0xD7CB, 0xD7FB), (0xFFA0, 0xFFA0), (0xFFF0, 0xFFF8), (0x111C2, 0x111C3),
      (0x113D1, 0x113D1), (0x1193F, 0x1193F), (0x11941, 0x11941), (0x11A84, 0x11A89),
      (0x11D46, 0x11D46), (0x11F02, 0x11F02), (0xE0000, 0xE0000), (0xE0002, 0xE001F),
      (0xE0080, 0xE00FF), (0xE01F0, 0xE0FFF)] c

def isWideQuote (c : Char) : Bool := within 0x2018 0x2019 c || within 0x201C 0x201D c

def alone (c : Char) : Int × Following :=
  let n := c.toNat
  let seen (neighbour : Neighbour) : Int × Following := (advance c, { neighbour })
  if c = '\n' then seen .lineFeed
  else if n ≤ 0xA0 then (1, Following.none)
  else if n = 0xFE0F then (0, Following.none.select .picture)
  else if n = 0xFE0E then (0, Following.none.select .text)
  else if n = 0xFE01 then (0, Following.none.select .full)
  else if n = 0x5DC then seen .lamed
  else if isAlef c then seen .alef
  else if isCoengLetter c then seen .coengLetter
  else if n = 0x1A10 then seen .buginYa
  else if isTifinaghLetter c then seen .tifinaghLetter
  else if within 0xA4FC 0xA4FD c then seen .lisuTone
  else if n = 0x10C03 then seen .orkhonI
  else if n = 0x16D67 then seen .kiratE
  else if n = 0x16D68 then seen .kiratAi
  else if isFlagLetter c then seen .flagLetter
  else if isSkinTone c then seen .skinTone
  else if pictureRanges.has c then seen .picture
  else seen .nothing

def together? (c : Char) (neighbour : Neighbour) (joiner : Bool) : Option (Int × Following) :=
  let n := c.toNat
  let adds (k : Int) (next : Neighbour) : Option (Int × Following) :=
    some (k, { neighbour := next })
  match neighbour with
  | .alef =>
    if isLam c then adds 0 .nothing else if isJoinTransparent c then adds 0 .alef else none
  | .lamed => if joiner && n == 0x5D0 then adds 0 .nothing else none
  | .coengLetter => if n == 0x17D2 then adds (-1) .nothing else none
  | .buginYa => if joiner && n == 0x1A17 then adds 0 .buginVowelYa else none
  | .buginVowelYa => if n == 0x1A15 then adds 0 .nothing else none
  | .tifinaghLetter =>
    if n == 0x2D7F then adds 1 .tifinaghJoined
    else if joiner && isTifinaghLetter c then adds 0 .nothing
    else none
  | .tifinaghJoined => if isTifinaghLetter c then adds (-1) .nothing else none
  | .lisuTone => if within 0xA4F8 0xA4FB c then adds 0 .nothing else none
  | .orkhonI => if joiner && n == 0x10C32 then adds 0 .nothing else none
  | .kiratE =>
    if n == 0x16D63 || n == 0x16D69 then adds 0 .nothing
    else if n == 0x16D67 then adds 0 .kiratAi
    else if n == 0x16D68 then adds 1 .kiratE
    else none
  | .kiratAi => if n == 0x16D63 then adds 0 .nothing else none
  | .skinTone =>
    if tonedRanges.has c then adds 0 .picture
    else if n == 0x200D then adds 0 .joinedPicture else none
  | .flagLetter => if isFlagLetter c then adds 1 .flagLetters else none
  | .flagLetters =>
    if isFlagLetter c then adds 1 .flagLetters
    else if n == 0x200D then adds 0 .joinedPicture else none
  | .picture => if n == 0x200D then adds 0 .joinedPicture else none
  | .joinedPicture =>
    if n == 0x20E3 then adds 0 .joinedKeycap
    else if isFlagLetter c then adds 1 .joinedFlagLetter
    else if isSkinTone c then adds 0 .skinTone
    else if n == 0xE007F then adds 0 .joinedTagEnd
    else if pictureRanges.has c then adds 0 .picture
    else none
  | .joinedFlagLetter | .joinedFlagOdd => if isFlagLetter c then adds (-1) .joinedFlagEven else none
  | .joinedFlagEven =>
    if isFlagLetter c then adds 3 .joinedFlagOdd
    else if n == 0x200D then adds 0 .joinedPicture else none
  | .joinedTagEnd =>
    if within 0xE0061 0xE007A c then adds 0 (.joinedTagLetters 1)
    else if within 0xE0030 0xE0039 c then adds 0 (.joinedTagDigits 1)
    else none
  | .joinedTagLetters k =>
    if k < 6 && within 0xE0061 0xE007A c then adds 0 (.joinedTagLetters (k + 1))
    else if k < 5 && within 0xE0030 0xE0039 c then adds 0 (.joinedTagDigits 1)
    else if 3 ≤ k && n == 0x1F3F4 then adds 0 .picture
    else none
  | .joinedTagDigits k =>
    if k < 3 && within 0xE0030 0xE0039 c then adds 0 (.joinedTagDigits (k + 1))
    else if k == 3 && n == 0x1F3F4 then adds 0 .picture
    else none
  | .nothing | .lineFeed | .joinedKeycap => none

def widthBeside (c : Char) (f : Following) : Int × Following :=
  let n := c.toNat
  if n ≤ 0xA0 then
    if c = '\r' && f.neighbour == .lineFeed then (0, Following.none) else alone c
  else if n = 0xFE0F then (0, f.select .picture)
  else if n = 0xFE0E then (0, f.select .text)
  else if n = 0xFE01 then (0, f.select .full)
  else if f.selector == some .text && textualRanges.has c then (1, Following.none)
  else if f.selector == some .full && isWideQuote c then (2, Following.none)
  else
    let f := f.unselect
    if f.neighbour.isLigature && f.neighbour != .alef &&
      n == 0x200D then (0, { f with joiner := true })
    else if f.neighbour.isLigature && f.neighbour != .alef && isIgnorableMark c then (0, f)
    else (together? c f.neighbour f.joiner).getD (alone c)

def widthStep (c : Char) (f : Following) : Int × Following :=
  if f.selector == some .picture then
    if selectableRanges.has c then
      (if f.neighbour == .joinedPicture || f.neighbour == .joinedKeycap then 0 else 2,
        { neighbour := .picture })
    else widthBeside c f.unselect
  else widthBeside c f

def measure : Text → Int × Following
  | [] => (0, Following.none)
  | c :: cs =>
    let (total, f) := measure cs
    let (columns, next) := widthStep c f
    (total + columns, next)

def width (s : Text) : Nat := (measure s).1.toNat

end ErbLayout.Text
