import ErbLayout.Text.Basic
import ErbLayout.Text.Unprintable

/-!
Quoted text, as it stands in messages: quotation marks around the text, a backslash before a
quotation mark and a backslash, short forms for the common controls, and the number of the code
point for what cannot be shown.
-/

namespace ErbLayout.Text

def escape (c : Char) : Text :=
  if c = '\x00' then ['\\', '0']
  else if c = '\t' then ['\\', 't']
  else if c = '\r' then ['\\', 'r']
  else if c = '\n' then ['\\', 'n']
  else if c = '"' || c = '\\' then ['\\', c]
  else if isUnprintable c then ['\\', 'u', '{'] ++ Nat.toDigits 16 c.toNat ++ ['}']
  else [c]

def quoted (s : Text) : Text := '"' :: (s.flatMap escape ++ ['"'])

end ErbLayout.Text
