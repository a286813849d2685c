import ErbLayout.Text.Basic

/-!
Texts as bytes in UTF-8. Reading is strict, or puts a replacement character for every longest
stretch of bytes that begins a character and does not finish it.
-/

namespace ErbLayout

abbrev Bytes := List UInt8

namespace Text

def encodeChar (c : Char) : Bytes :=
  let n := c.toNat
  let tail (k : Nat) : UInt8 := (0x80 + n / Nat.pow 64 k % 64).toUInt8
  if n < 0x80 then [n.toUInt8]
  else if n < 0x800 then [(0xC0 + n / 64).toUInt8, tail 0]
  else if n < 0x10000 then [(0xE0 + n / Nat.pow 64 2).toUInt8, tail 1, tail 0]
  else [(0xF0 + n / Nat.pow 64 3).toUInt8, tail 2, tail 1, tail 0]

def encode (s : Text) : Bytes := s.flatMap encodeChar

/-- The bytes that may follow a first byte: how many, and the range of the first of them. -/
def continuation (first : UInt8) : Nat × UInt8 × UInt8 :=
  if 0xC2 ≤ first && first ≤ 0xDF then (1, 0x80, 0xBF)
  else if first = 0xE0 then (2, 0xA0, 0xBF)
  else if first = 0xED then (2, 0x80, 0x9F)
  else if 0xE1 ≤ first && first ≤ 0xEF then (2, 0x80, 0xBF)
  else if first = 0xF0 then (3, 0x90, 0xBF)
  else if 0xF1 ≤ first && first ≤ 0xF3 then (3, 0x80, 0xBF)
  else if first = 0xF4 then (3, 0x80, 0x8F)
  else (0, 0, 0)

/-- The value of a character whose first bytes gave `value`, from `count` more bytes, the next of
which lies between `lo` and `hi`; nothing when the bytes do not fit. The rest begins at the first
that does not. -/
def readTail (value lo hi : Nat) : Nat → Bytes → Option Nat × Bytes
  | 0, rest => (some value, rest)
  | _ + 1, [] => (none, [])
  | count + 1, b :: rest =>
    if lo ≤ b.toNat && b.toNat ≤ hi then readTail (value * 64 + (b.toNat - 0x80)) 0x80 0xBF
      count rest
    else (none, b :: rest)

/-- The character that begins with the byte `first`, or nothing, and the bytes after it. -/
def readChar (first : UInt8) (rest : Bytes) : Option Char × Bytes :=
  if first < 0x80 then (some (Char.ofNat first.toNat), rest)
  else
    match continuation first with
    | (0, _, _) => (none, rest)
    | (1, lo, hi) => decoded (readTail (first.toNat - 0xC0) lo.toNat hi.toNat 1 rest)
    | (2, lo, hi) => decoded (readTail (first.toNat - 0xE0) lo.toNat hi.toNat 2 rest)
    | (n, lo, hi) => decoded (readTail (first.toNat - 0xF0) lo.toNat hi.toNat n rest)
where
  /-- The number as a character. -/
  decoded : Option Nat × Bytes → Option Char × Bytes
    | (value, rest) => (value.map Char.ofNat, rest)

theorem length_readTail (value lo hi count : Nat) (bytes : Bytes) :
    (readTail value lo hi count bytes).2.length ≤ bytes.length := by
  fun_induction readTail value lo hi count bytes with
  | case1 => simp
  | case2 => simp
  | case3 _ _ _ _ b rest _ ih => simp only [List.length_cons]; omega
  | case4 => simp

theorem length_readChar (first : UInt8) (rest : Bytes) :
    (readChar first rest).2.length ≤ rest.length := by
  unfold readChar
  split
  · simp
  · split
    · simp
    · exact length_readTail ..
    · exact length_readTail ..
    · exact length_readTail ..

/-- The characters of bytes, each absent where the bytes are not UTF-8. -/
def readChars : Bytes → List (Option Char)
  | [] => []
  | first :: rest => (readChar first rest).1 :: readChars (readChar first rest).2
termination_by bytes => bytes.length
decreasing_by
  have := length_readChar first rest
  simp only [List.length_cons]
  omega

def decode? (bytes : Bytes) : Option Text := (readChars bytes).mapM id

/-- The text of bytes, with a replacement character where they are not UTF-8. -/
def decodeLossy (bytes : Bytes) : Text := (readChars bytes).map fun c => c.getD '\ufffd'

end Text

end ErbLayout
