import ErbLayout.Text.Bytes

/-!
Bytes as filters see them. A filter knows nothing of encodings: every byte is one character to it,
numbered as the byte, and only those of ASCII are letters, digits or blanks. Rows end with a line
feed, or with another mark for some filters, except perhaps the last.
-/

namespace ErbLayout.Filter

def octets (s : Bytes) : Text := s.map fun b => Char.ofNat b.toNat

def bytesOf (s : Text) : Bytes := s.map fun c => c.toNat.toUInt8

def lineFeed : Char := '\n'

inductive OctetClass where
  | alnum | alpha | blank | cntrl | digit | graph | lower | print | punct | space | upper | xdigit
  deriving DecidableEq, Repr

namespace OctetClass

def named : List (String × OctetClass) :=
  [("alnum", alnum), ("alpha", alpha), ("blank", blank), ("cntrl", cntrl), ("digit", digit),
    ("graph", graph), ("lower", lower), ("print", print), ("punct", punct), ("space", space),
    ("upper", upper), ("xdigit", xdigit)]

def ranges : OctetClass → List (Char × Char)
  | alnum => [('0', '9'), ('A', 'Z'), ('a', 'z')]
  | alpha => [('A', 'Z'), ('a', 'z')]
  | blank => [('\t', '\t'), (' ', ' ')]
  | cntrl => [('\x00', '\x1f'), ('\x7f', '\x7f')]
  | digit => [('0', '9')]
  | graph => [('!', '~')]
  | lower => [('a', 'z')]
  | print => [(' ', '~')]
  | punct => [('!', '/'), (':', '@'), ('[', '\x60'), ('\x7b', '~')]
  | space => [('\t', '\r'), (' ', ' ')]
  | upper => [('A', 'Z')]
  | xdigit => [('0', '9'), ('A', 'F'), ('a', 'f')]

end OctetClass

def inRanges (ranges : List (Char × Char)) (c : Char) : Bool :=
  ranges.any fun (lo, hi) => lo ≤ c && c ≤ hi

/-- The characters from `lo` to `hi`. -/
def span (lo hi : Char) : Text :=
  (List.range (hi.toNat + 1 - lo.toNat)).map fun k => Char.ofNat (lo.toNat + k)

def allOctets : Text := span '\x00' '\xff'

def isWordOctet (c : Char) : Bool := c.isAlphanum || c == '_'

section Rows

def rows (ending : Char) : Text → List Text
  | [] => []
  | c :: rest =>
    if c = ending then [c] :: rows ending rest
    else
      match rows ending rest with
      | [] => [[c]]
      | r :: rs => (c :: r) :: rs

/-- A row: what it holds, and whether a mark ends it. -/
structure Row where
  content : Text
  ended : Bool
  deriving DecidableEq, Repr

def Row.ofText (ending : Char) (s : Text) : Row where
  content := s.takeWhile (· != ending)
  ended := s.contains ending

def rowsOf (ending : Char) (s : Text) : List Row := (rows ending s).map (Row.ofText ending)

end Rows

end ErbLayout.Filter
