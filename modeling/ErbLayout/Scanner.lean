import ErbLayout.Construct
import ErbLayout.Markup.Token

/-!
The scanner, which gives the tokens of a body one at a time. It looks for the next tag from its
position on; when text stands before the tag, the text is given first and the tag is kept for the
next time. After the opening tag of a script or style element it looks for the tag that closes it.
What a match means is decided by the groups that took part in it.
-/

namespace ErbLayout

open Text Markup

/-- A match of a construct: where it starts, and its text and the texts of its groups. -/
structure Captures where
  start : Nat
  whole : Text
  groups : List (Option Text)

namespace Captures

def stop (c : Captures) : Nat := c.start + byteSize c.whole

def group (c : Captures) (i : Nat) : Option Text := c.groups[i]?.join

def ofParts? : List Part → Option Captures
  | some (start, whole) :: parts => some ⟨start, whole, parts.map (·.map Prod.snd)⟩
  | _ => none

def all (construct : Construct) (s : Text) : List Captures :=
  (construct.find s).filterMap ofParts?

end Captures

inductive Kind where
  | text (content : Text)
  | raw (content : Text)
  | opening (name attributes ending : Text)
  | closing (name : Text)
  | unrecognized (content : Text)
  deriving DecidableEq, Repr

structure Found where
  offset : Nat
  afterBlank : Bool
  kind : Kind
  deriving DecidableEq, Repr

def Captures.kind (c : Captures) : Kind :=
  match c.group 0, c.group 1 with
  | some name, _ => .closing name
  | none, some name => .opening name ((c.group 2).getD []) ((c.group 3).getD ['>'])
  | none, none => .unrecognized c.whole

def Kind.rawContainer? : Kind → Option Text
  | .opening name _ ending =>
    if ending = ['>'] && rawTextElements.contains name then some name else none
  | _ => none

structure Scanner where
  source : Text
  pos : Nat := 0
  /-- A tag that was found together with the text before it. -/
  pending : Option Found := none
  /-- The element whose raw content is to be given next. -/
  rawUntil : Option Text := none

namespace Scanner

def rest (m : Scanner) : Text := m.source.drop (takeBytes m.pos m.source).length

def found (m : Scanner) (offset : Nat) (kind : Kind) : Found :=
  ⟨offset, endsBlank (takeBytes offset m.source), kind⟩

def takePending (m : Scanner) : Option (Found × Scanner) :=
  m.pending.map fun t => (t, { m with pending := none })

/-- Raw content up to the tag that closes the element called `name`. -/
def scanRaw (m : Scanner) (name : Text) : Option (Found × Scanner) :=
  match (Captures.all .rawTextClose m.rest).find? fun c => c.group 0 = some name with
  | some c =>
    let tag := m.found (m.pos + c.start) (.closing name)
    let next := { m with pos := m.pos + c.stop, pending := some tag }
    if c.start = 0 then next.takePending
    else some (m.found m.pos (.raw (takeBytes c.start m.rest)), next)
  | none =>
    let next := { m with pos := byteSize m.source }
    if m.rest.isEmpty then next.takePending
    else some (m.found m.pos (.raw m.rest), next)

def scanMarkup (m : Scanner) : Option (Found × Scanner) :=
  match Captures.all .tag m.rest with
  | [] => some (m.found m.pos (.text m.rest), { m with pos := byteSize m.source })
  | c :: _ =>
    let tag := m.found (m.pos + c.start) c.kind
    let next := { m with pos := m.pos + c.stop, rawUntil := c.kind.rawContainer? }
    if c.start = 0 then some (tag, next)
    else some (m.found m.pos (.text (takeBytes c.start m.rest)), { next with pending := some tag })

def next? (m : Scanner) : Option (Found × Scanner) :=
  match m.takePending with
  | some given => some given
  | none =>
    if byteSize m.source ≤ m.pos then none
    else
      match m.rawUntil with
      | some name => scanRaw { m with rawUntil := none } name
      | none => m.scanMarkup

end Scanner

end ErbLayout
