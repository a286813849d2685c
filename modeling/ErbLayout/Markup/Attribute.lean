import ErbLayout.Markup.Tag

/-!
The attributes of an opening tag: a name, a value if there is one, and how the value is quoted. The
text of an attribute list is read attribute by attribute, and what belongs to none is passed over.
-/

namespace ErbLayout.Markup

open Text

inductive Quote where
  | apostrophe
  | quotation
  | bare
  deriving DecidableEq, Repr

/-- The quote that is written around a value; a bare value is written with quotation marks. -/
def Quote.written : Quote → Text
  | .apostrophe => ['\'']
  | .quotation | .bare => ['"']

structure Attribute where
  name : Text
  value : Option Text
  quote : Quote
  deriving DecidableEq, Repr

/-- A value without quotes at the start of the text. -/
def bareValue? (s : Text) : Option (Text × Text) :=
  let (value, rest) := spanOf isBareValueChar s
  if value.isEmpty then none else some (value, rest)

/-- An attribute with a value, or else a stretch of bare value characters. -/
def attribute? (s : Text) : Option (Text × Text) := (valuedAttribute? s).or (bareValue? s)

/-- What an attribute with a value reads is not empty. -/
theorem valuedAttribute?_ne_nil {s a r : Text} (h : valuedAttribute? s = some (a, r)) : a ≠ [] := by
  rintro rfl
  have hs := valuedAttribute?_eq_some h
  unfold valuedAttribute? at h
  simp only at h
  split at h
  · simp at h
  · split at h
    · obtain ⟨x, _, heq⟩ := Option.map_eq_some_iff.1 h
      simp at heq
    · obtain ⟨x, _, heq⟩ := Option.map_eq_some_iff.1 h
      simp at heq
    · split at h <;> simp at h
    · simp at h

def attributeTexts : Recogniser Text where
  run := attribute?
  written := id
  sound s a r h := by
    simp only [attribute?, Option.or_eq_some_iff] at h
    rcases h with h | ⟨_, h⟩
    · exact ⟨valuedAttribute?_eq_some h, valuedAttribute?_ne_nil h⟩
    · unfold bareValue? at h
      have hs := spanOf_append isBareValueChar s
      simp only at h
      split at h
      · simp at h
      next hne =>
        obtain ⟨rfl, rfl⟩ := by simpa using h
        exact ⟨hs.symm, fun hnil => hne (List.isEmpty_iff.mpr hnil)⟩

/-- A value without the quotes around it. -/
def unquote? (value : Text) : Option Text :=
  let isQuote (c : Char) : Bool := c == '"' || c == '\''
  match value with
  | [] => none
  | c :: inner =>
    if isQuote c && inner.getLast?.any isQuote then some inner.dropLast else none

/-- The attribute that a stretch of text is. A name that ends with an equals sign and has no value
is kept as it is written. -/
def Attribute.ofText (written : Text) : Attribute :=
  let written := trim written
  match cutFirst? '=' written with
  | none => ⟨written, none, .bare⟩
  | some (name, value) =>
    if isBareValue value then ⟨name, some value, .bare⟩
    else
      match unquote? value with
      | some inner =>
        ⟨name, some inner, if value.head? == some '\'' then .apostrophe else .quotation⟩
      | none => ⟨written, none, .bare⟩

def attributesOf (s : Text) : List Attribute :=
  (attributeTexts.split s).1.map fun (_, written) => Attribute.ofText written

def tokenListNames : List Text := ["class".toList, "data-action".toList]

def className : Text := "class".toList

def Attribute.isTokenList (a : Attribute) : Bool :=
  a.quote != .bare && tokenListNames.contains a.name

/-- Blanks after an equals sign that follows an attribute name, at the start of the text. -/
def badAttribute? (s : Text) : Option (Text × Text) :=
  let (name, r) := spanOf isAttributeNameChar s
  if name.isEmpty || name.getLast? == some '/' then none
  else
    match r with
    | '=' :: r =>
      let (blanks, rest) := spanOf isBlank r
      if blanks.isEmpty then none else some (name ++ '=' :: blanks, rest)
    | _ => none

def badAttributes : Recogniser Text where
  run := badAttribute?
  written := id
  sound s a r h := by
    unfold badAttribute? at h
    have hname := spanOf_append isAttributeNameChar s
    simp only at h
    split at h
    · simp at h
    · split at h
      next r' hr =>
        have hblank := spanOf_append isBlank r'
        split at h
        · simp at h
        · obtain ⟨rfl, rfl⟩ := by simpa using h
          rw [hr, ← hblank] at hname
          exact ⟨by simpa using hname.symm, by simp⟩
      next => simp at h

end ErbLayout.Markup
