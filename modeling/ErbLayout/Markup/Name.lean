import ErbLayout.Text.Blank

/-!
The character classes of markup: tag names, attribute names and values without quotes, and the
element names with rules of their own. An attribute name is a stretch of name characters that does
not end with a slash, so that the slash of a self-closing tag is never part of a name.
-/

namespace ErbLayout.Markup

open Text

def isTagNameChar (c : Char) : Bool :=
  ('a' ≤ c && c ≤ 'z') || ('0' ≤ c && c ≤ '9') || c == '_' || c == ':' || c == '-'

/-- All but the six ASCII blanks, the equals sign, quotes and angle brackets may stand in an
attribute name. -/
def isAttributeNameChar (c : Char) : Bool :=
  !(c == '\r' || c == '\n' || c == '\t' || c == '\x0c' || c == '\x0b' || c == '=' || c == ' '
    || c == '\'' || c == '"' || c == '<' || c == '>')

/-- All but blanks, quotes and angle brackets may stand in a value without quotes. -/
def isBareValueChar (c : Char) : Bool :=
  !(c == '<' || c == '>' || c == '\'' || c == '"' || isBlank c)

/-- A tag name is not empty and holds tag name characters only. -/
def isTagName (s : Text) : Bool := !s.isEmpty && s.all isTagNameChar

/-- A value without quotes is not empty and holds bare value characters only. -/
def isBareValue (s : Text) : Bool := !s.isEmpty && s.all isBareValueChar

/-- The letter that `c` stands for when case is ignored: besides the ASCII capitals, the long s and
the Kelvin sign fold to an ASCII letter. -/
def foldCase (c : Char) : Char :=
  if c == '\u017f' then 's' else if c == '\u212a' then 'k' else c.toLower

/-- The elements that never have content. -/
def voidElements : List Text :=
  ["area", "base", "br", "col", "command", "embed", "hr", "img", "input", "keygen", "link",
    "menuitem", "meta", "param", "source", "track", "wbr"].map String.toList

/-- Whether the name is that of an element without content, in any case. -/
def isVoidElement (name : Text) : Bool := voidElements.contains (name.map foldCase)

def rawTextElements : List Text := ["script".toList, "style".toList]

end ErbLayout.Markup
