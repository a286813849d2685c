import ErbLayout.Markup.Tag
import ErbLayout.Settings.Basic
import ErbLayout.Text.Number

/-!
Directives: a comment in a document that begins with the name of the formatter and a colon holds
options for that document. Only the first such comment counts, and it ends on the line on which its
options begin.
-/

namespace ErbLayout

open Text Markup

structure Directive where
  lineWidth : Option Nat := none
  singleClassPerLine : Option Bool := none
  /-- The document is left as it is. -/
  disabled : Bool := false
  deriving DecidableEq, Repr

namespace Directive

def isEmpty (d : Directive) : Bool :=
  d.lineWidth.isNone && d.singleClassPerLine.isNone && !d.disabled

def overlay (d : Directive) : Overlay :=
  { lineWidth := d.lineWidth, singleClassPerLine := d.singleClassPerLine }

/-- The text after `p` in any case of its letters, when the text starts with it. -/
def afterAnyCase? (p s : Text) : Option Text :=
  if (s.take p.length).map foldCase = p then some (s.drop p.length) else none

def endsHere (s : Text) : Bool :=
  match (spanOf isBlank s).2 with
  | '-' :: '%' :: '>' :: _ => true
  | '%' :: '>' :: _ => true
  | _ => false

/-- The text up to the end of the comment, which no line feed may precede. -/
def upToEnd? (s : Text) : Option Text :=
  if endsHere s then some []
  else
    match s with
    | [] => none
    | c :: cs => if c = '\n' then none else (upToEnd? cs).map (c :: ·)

def optionsAt? (s : Text) : Option Text :=
  match s with
  | '<' :: '%' :: '#' :: r =>
    match afterAnyCase? "erbfmt:".toList (trimStart r) with
    | some r => upToEnd? (trimStart r)
    | none => none
  | _ => none

def options? : Text → Option Text
  | [] => none
  | c :: cs =>
    match optionsAt? (c :: cs) with
    | some found => some found
    | none => options? cs

def set? (d : Directive) (word : Text) : Option Directive :=
  if word = "off".toList || word = "disable".toList then some { d with disabled := true }
  else if word = "--single-class-per-line".toList
    then some { d with singleClassPerLine := some true }
  else if word = "--no-single-class-per-line".toList
    then some { d with singleClassPerLine := some false }
  else
    (after? "--line-width=".toList word).map fun value =>
      { d with lineWidth := nat? wordLimit value }

def read (d : Directive) : List Text → Directive × List Text
  | [] => (d, [])
  | word :: rest =>
    if word = "-l".toList || word = "--line-width".toList then
      match rest with
      | [] => ({ d with lineWidth := none }, [])
      | value :: rest => read { d with lineWidth := nat? wordLimit value } rest
    else
      match d.set? word with
      | some d => read d rest
      | none =>
        let (d, unknown) := read d rest
        (d, word :: unknown)

/-- The first directive of a document, unless it sets nothing, and its unknown options. -/
def find (source : Text) : Option Directive × List Text :=
  match options? source with
  | none => (none, [])
  | some options =>
    let (d, unknown) := read {} (words options)
    (if d.isEmpty then none else some d, unknown)

end Directive

end ErbLayout
