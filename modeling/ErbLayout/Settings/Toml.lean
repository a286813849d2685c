import ErbLayout.Settings.Basic

/-!
Settings files in TOML. A file holds at most one line for each of the four settings, besides blank
lines and comments; a number, a truth value, a list of strings and a string are the values they
take. Anything else, tables included, makes the file unreadable.
-/

namespace ErbLayout.Settings.Toml

open Text

def isGap (c : Char) : Bool := c == ' ' || c == '\t'

def isPlain (c : Char) : Bool := c == '\t' || (0x20 ≤ c.toNat && c.toNat != 0x7F)

def afterNewline? : Text → Option Text
  | '\n' :: r => some r
  | '\r' :: '\n' :: r => some r
  | _ => none

def skipComment (s : Text) : Text :=
  match s.dropWhile isGap with
  | '#' :: r => r.dropWhile isPlain
  | r => r

/-- The text after blank lines and comments, and the gaps of the next line; at most `fuel` lines. -/
def skipLines : Nat → Text → Text
  | 0, s => s
  | fuel + 1, s =>
    match afterNewline? (skipComment s) with
    | some r => skipLines fuel r
    | none => s.dropWhile isGap

def hexDigit? (c : Char) : Option Nat :=
  if '0' ≤ c && c ≤ '9' then some (c.toNat - 48)
  else if 'a' ≤ c && c ≤ 'f' then some (c.toNat - 87)
  else if 'A' ≤ c && c ≤ 'F' then some (c.toNat - 55)
  else none

def codePoint? (digits : Text) : Option Char :=
  (digits.mapM hexDigit?).bind fun values =>
    let n := values.foldl (fun n v => 16 * n + v) 0
    if n.isValidChar then some (Char.ofNat n) else none

def escaped? : Text → Option (Char × Text)
  | 'b' :: r => some ('\x08', r)
  | 't' :: r => some ('\t', r)
  | 'n' :: r => some ('\n', r)
  | 'f' :: r => some ('\x0c', r)
  | 'r' :: r => some ('\r', r)
  | '"' :: r => some ('"', r)
  | '\\' :: r => some ('\\', r)
  | 'u' :: r => if r.length < 4 then none else (codePoint? (r.take 4)).map fun c => (c, r.drop 4)
  | 'U' :: r => if r.length < 8 then none else (codePoint? (r.take 8)).map fun c => (c, r.drop 8)
  | _ => none

def basicRest? : Nat → Text → Option (Text × Text)
  | 0, _ => none
  | _, [] => none
  | fuel + 1, c :: r =>
    if c = '"' then some ([], r)
    else if c = '\\' then
      (escaped? r).bind fun (d, r) => (basicRest? fuel r).map fun (s, rest) => (d :: s, rest)
    else if isPlain c then (basicRest? fuel r).map fun (s, rest) => (c :: s, rest)
    else none

/-- A string without escapes up to the apostrophe that ends it, and the rest. -/
def literalRest? : Text → Option (Text × Text)
  | [] => none
  | c :: r =>
    if c = '\'' then some ([], r)
    else if isPlain c then (literalRest? r).map fun (s, rest) => (c :: s, rest)
    else none

/-- The end of a string over several lines: three quotes, perhaps with one or two more that belong
to the string. -/
def longEnd? (q : Char) (s : Text) : Option (Text × Text) :=
  let quotes := s.takeWhile (· == q)
  if quotes.length < 3 then none
  else
    let inside := min (quotes.length - 3) 2
    some (List.replicate inside q, s.drop (inside + 3))

/-- A text without the blanks and line ends at its start. -/
def skipBlankLines : Nat → Text → Text
  | 0, s => s
  | fuel + 1, s =>
    match afterNewline? (s.dropWhile isGap) with
    | some r => skipBlankLines fuel r
    | none => s.dropWhile isGap

/-- A string over several lines up to its end, and the rest; `q` is its quote, and with quotation
marks a backslash escapes a character or the line end and the blanks after it. -/
def longRest? (q : Char) : Nat → Text → Option (Text × Text)
  | 0, _ => none
  | fuel + 1, s =>
    match longEnd? q s with
    | some found => some found
    | none =>
      match afterNewline? s with
      | some r => (longRest? q fuel r).map fun (t, rest) => ('\n' :: t, rest)
      | none =>
        match s with
        | [] => none
        | c :: r =>
          if c = '\\' && q = '"' then
            match afterNewline? (r.dropWhile isGap) with
            | some r => longRest? q fuel (skipBlankLines r.length r)
            | none =>
              (escaped? r).bind fun (d, r) => (longRest? q fuel r).map fun (t, rest) =>
                (d :: t, rest)
          else if isPlain c then (longRest? q fuel r).map fun (t, rest) => (c :: t, rest)
          else none

def string? (s : Text) : Option (Text × Text) :=
  let long (q : Char) (r : Text) : Option (Text × Text) :=
    let r := (afterNewline? r).getD r
    longRest? q (r.length + 1) r
  match s with
  | '"' :: '"' :: '"' :: r => long '"' r
  | '\'' :: '\'' :: '\'' :: r => long '\'' r
  | '"' :: r => basicRest? (r.length + 1) r
  | '\'' :: r => literalRest? r
  | _ => none

/-- The rest of a list of strings after `[` or a comma. -/
def stringsRest? : Nat → Text → Option (List Text × Text)
  | 0, _ => none
  | fuel + 1, s =>
    let s := skipLines s.length s
    match s with
    | ']' :: r => some ([], r)
    | _ =>
      (string? s).bind fun (item, r) =>
        match skipLines r.length r with
        | ',' :: r => (stringsRest? fuel r).map fun (items, rest) => (item :: items, rest)
        | ']' :: r => some ([item], r)
        | _ => none

def strings? : Text → Option (List Text × Text)
  | '[' :: r => stringsRest? (r.length + 1) r
  | _ => none

def truth? (s : Text) : Option (Bool × Text) :=
  match after? "true".toList s with
  | some r => some (true, r)
  | none => (after? "false".toList s).map fun r => (false, r)

/-- Digits in a base, single underscores allowed between two of them. -/
def digits? (base : Nat) (s : Text) : Option Nat :=
  let groups := splitAt (· == '_') s
  let values := groups.map fun g => g.mapM fun c => (hexDigit? c).filter (· < base)
  if groups.any List.isEmpty then none
  else (values.mapM id).map fun vs => vs.flatten.foldl (fun n v => base * n + v) 0

/-- A decimal number without leading zeros. -/
def decimal? (s : Text) : Option Nat :=
  if 1 < s.length && s.head? == some '0' then none else digits? 10 s

def greatest : Nat := Nat.pow 2 63 - 1

def number? (s : Text) : Option (Nat × Text) :=
  let isPart (c : Char) : Bool := c.isAlphanum || c == '_' || c == '+' || c == '-' ||
    c == '.' || c == ':'
  let word := s.takeWhile isPart
  let value := match word with
    | '0' :: 'x' :: r => digits? 16 r
    | '0' :: 'o' :: r => digits? 8 r
    | '0' :: 'b' :: r => digits? 2 r
    | '+' :: r => decimal? r
    | '-' :: r => (decimal? r).filter (· == 0)
    | r => decimal? r
  (value.filter (· ≤ greatest)).map fun n => (n, s.dropWhile isPart)

/-- The name of a setting at the start of the text, in quotes or without, and the rest. -/
def key? (s : Text) : Option (Text × Text) :=
  let isPart (c : Char) : Bool := c.isAlphanum || c == '_' || c == '-'
  match s with
  | '"' :: r => basicRest? (r.length + 1) r
  | '\'' :: r => literalRest? r
  | _ =>
    if (s.takeWhile isPart).isEmpty then none else some (s.takeWhile isPart, s.dropWhile isPart)

/-- The overlay with one more setting, which must not be set yet, and the text after its value. -/
def set? (o : Overlay) (key value : Text) : Option (Overlay × Text) :=
  if key = "line_width".toList && o.lineWidth.isNone then
    (number? value).map fun (n, r) => ({ o with lineWidth := some n }, r)
  else if key = "single_class_per_line".toList && o.singleClassPerLine.isNone then
    (truth? value).map fun (b, r) => ({ o with singleClassPerLine := some b }, r)
  else if key = "class_order".toList && o.classOrder.isNone then
    (strings? value).map fun (l, r) => ({ o with classOrder := some l }, r)
  else if key = "code_formatter".toList && o.codeFormatter.isNone then
    (string? value).map fun (t, r) => ({ o with codeFormatter := some t }, r)
  else none

def readLines? : Nat → Overlay → Text → Option Overlay
  | 0, _, _ => none
  | fuel + 1, o, s =>
    let s := skipLines s.length s
    if (skipComment s).isEmpty then some o
    else
      (key? s).bind fun (key, r) =>
        match r.dropWhile isGap with
        | '=' :: r =>
          (set? o key (r.dropWhile isGap)).bind fun (o, r) =>
            let r := skipComment r
            if r.isEmpty then some o else (afterNewline? r).bind (readLines? fuel o)
        | _ => none

/-- The settings of a file, unless it is unreadable. -/
def read? (s : Text) : Option Overlay :=
  let s := (after? ['\ufeff'] s).getD s
  readLines? (s.length + 1) {} s

end ErbLayout.Settings.Toml
