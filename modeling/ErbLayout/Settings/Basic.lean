import ErbLayout.ClassOrder
import ErbLayout.Document

/-!
Settings and where they come from: defaults, overlaid by files, the command line and the document
itself. An overlay sets some of the settings and leaves the others as they are.
-/

namespace ErbLayout

open Text

structure Settings where
  lineWidth : Nat := 80
  singleClassPerLine : Bool := false
  /-- The order of classes; empty when classes keep the order of the source. -/
  classOrder : List Text := []
  /-- The command that formats embedded code. -/
  codeFormatter : Option Text := none
  deriving DecidableEq, Repr

structure Overlay where
  lineWidth : Option Nat := none
  singleClassPerLine : Option Bool := none
  classOrder : Option (List Text) := none
  codeFormatter : Option Text := none
  deriving DecidableEq, Repr

def Settings.overlay (s : Settings) (o : Overlay) : Settings where
  lineWidth := o.lineWidth.getD s.lineWidth
  singleClassPerLine := o.singleClassPerLine.getD s.singleClassPerLine
  classOrder := o.classOrder.getD s.classOrder
  codeFormatter := o.codeFormatter.or s.codeFormatter

/-- An overlay that sets nothing changes nothing. -/
@[simp] theorem Settings.overlay_empty (s : Settings) : s.overlay {} = s := by
  cases s
  simp [Settings.overlay]

inductive Problem where
  | noWidth
  | tooWide (lineWidth : Nat)
  | blankFormatter
  deriving DecidableEq, Repr

def Settings.widest : Nat := 1000

def Problem.message : Problem → Text
  | .noWidth => "line_width must be at least 1".toList
  | .tooWide n =>
    "line_width ".toList ++ Nat.toDigits 10 n ++ " exceeds maximum of ".toList
      ++ Nat.toDigits 10 Settings.widest
  | .blankFormatter => "code_formatter must not be empty".toList

def Settings.problem? (s : Settings) : Option Problem :=
  if s.lineWidth = 0 then some .noWidth
  else if Settings.widest < s.lineWidth then some (.tooWide s.lineWidth)
  else if s.codeFormatter.any allBlank then some .blankFormatter
  else none

/-- The class order of the settings, unless it is empty. -/
def Settings.ranking? (s : Settings) : Option Layout.Ranking :=
  let order := ClassOrder.ofList s.classOrder
  if order.isEmpty then none else some order.rank

end ErbLayout
