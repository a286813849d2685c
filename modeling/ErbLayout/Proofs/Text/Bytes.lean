import ErbLayout.Text.Bytes

/-!
Bytes that are read as a text are the bytes of that text: every character has one spelling in bytes,
and reading accepts no other.
-/

namespace ErbLayout.Text

end ErbLayout.Text
