import ErbLayout.Layout.Packing
import ErbLayout.Markup.Attribute

/-!
The attributes of an opening tag laid out. A tag that fits stays on one line; otherwise every
attribute goes on a line of its own one level deeper, and an overlong list of tokens is broken into
lines two levels deeper. Class tokens are put in order first when an order is given.
-/

namespace ErbLayout.Layout

open Text Markup

/-- The rank of a class; classes without a rank come last. -/
abbrev Ranking := Text → Option Nat

structure AttributeStyle where
  lineWidth : Nat
  singleClassPerLine : Bool
  ranking : Option Ranking

/-- The sort key of a class: its rank, or the greatest rank there is. -/
def sortKey (ranking : Ranking) (token : Text) : Nat := (ranking token).getD (Nat.pow 2 64 - 1)

/-- Tokens in ascending order of their sort keys, equal ones in the order they had. -/
def sortTokens (ranking : Ranking) (tokens : List Text) : List Text :=
  tokens.mergeSort fun a b => sortKey ranking a ≤ sortKey ranking b

def tokensOf (ranking : Option Ranking) (a : Attribute) : List Text :=
  let tokens := words (a.value.getD [])
  match ranking with
  | some r => if a.name = className then sortTokens r tokens else tokens
  | none => tokens

def renderAttribute (ranking : Option Ranking) (a : Attribute) : Text :=
  match a.value with
  | none => a.name
  | some value =>
    let content := if a.quote = .bare then value else join [' '] (tokensOf ranking a)
    a.name ++ '=' :: (a.quote.written ++ content ++ a.quote.written)

/-- The attribute on several lines: its name and the opening quote, then the tokens one level
deeper. -/
def brokenAttribute (style : AttributeStyle) (measure : Text → Nat) (depth : Nat) (a : Attribute) :
    Text :=
  let tokens := tokensOf style.ranking a
  let room := available style.lineWidth (depth + 1)
  let lines :=
    if a.name = className && !style.singleClassPerLine then pack measure room room 0 tokens
    else tokens
  onNewLine depth (a.name ++ '=' :: a.quote.written)
    ++ lines.flatMap (onNewLine (depth + 1)) ++ a.quote.written

/-- What stands between the name of an opening tag at `depth` and its end. -/
def formatAttributes (style : AttributeStyle) (measure : Text → Nat) (name attributes ending : Text)
    (depth : Nat) : Text :=
  if allBlank attributes then []
  else
    let plain := collapse attributes
    let fits := measure ('<' :: (name ++ ' ' :: (plain ++ ending))) ≤
      available style.lineWidth depth
    let parsed := attributesOf attributes
    if fits && style.ranking.isNone && !parsed.any (fun a => a.name == className) then ' ' :: plain
    else if fits then parsed.flatMap fun a => ' ' :: renderAttribute style.ranking a
    else
      let unit (a : Attribute) : Text :=
        let line := renderAttribute style.ranking a
        if a.isTokenList && available style.lineWidth (depth + 1) < measure line then
          brokenAttribute style measure (depth + 1) a
        else onNewLine (depth + 1) line
      parsed.flatMap unit ++ onNewLine depth []

end ErbLayout.Layout
