import ErbLayout.Proofs.Markup.Attribute
import ErbLayout.Proofs.Markup.Tag

/-!
A tag put together from its parts is read back in these parts. Attributes with plain blanks before
them are read one after the other, each to its end, up to the blanks and the sign that end the tag.
One thing can go wrong: a value without quotes takes in a slash that follows it without a blank.
-/

namespace ErbLayout.Markup

open Text

/-- The attribute has a value that is written without quotes. -/
def Attribute.IsUnquoted (a : Attribute) : Prop := a.value.isSome ∧ a.quote = .bare

instance (a : Attribute) : Decidable a.IsUnquoted :=
  inferInstanceAs (Decidable (a.value.isSome ∧ a.quote = .bare))

/-- What may follow an attribute in a tag: a character that can be in no part of it, or a slash that
ends the tag, unless the attribute has a value without quotes. -/
def Ends (a : Attribute) (r : Text) : Prop :=
  (∃ c t, r = c :: t ∧ isAttributeNameChar c = false ∧ isBareValueChar c = false ∧ c ≠ '=') ∨
    (∃ t, r = '/' :: '>' :: t) ∧ ¬ a.IsUnquoted

theorem ends_of_blank {c : Char} (hblank : isBlank c) (hplain : isAttributeNameChar c = false)
    (a : Attribute) (t : Text) : Ends a (c :: t) := by
  refine Or.inl ⟨c, t, rfl, hplain, by simp [isBareValueChar, hblank], ?_⟩
  rintro rfl
  revert hblank
  decide

theorem dropFinalSlashes_concat_slash (s : Text) :
    dropFinalSlashes (s ++ ['/']) = dropFinalSlashes s := by
  induction s with
  | nil => rfl
  | cons c s ih => rw [List.cons_append, dropFinalSlashes, dropFinalSlashes, ih]

theorem valuedAttribute?_eq_none_of_head {c : Char} (hc : isAttributeNameChar c = false)
    (s : Text) :
    valuedAttribute? (c :: s) = none := by
  have hspan : spanOf isAttributeNameChar (c :: s) = ([], c :: s) :=
    spanOf_append_eq (a := []) (by simp) (by simpa using hc)
  simp [valuedAttribute?, hspan]

theorem bareAttribute?_eq_none_of_head {c : Char} (hc : isAttributeNameChar c = false) (s : Text) :
    bareAttribute? (c :: s) = none := by
  have hspan : spanOf isAttributeNameChar (c :: s) = ([], c :: s) :=
    spanOf_append_eq (a := []) (by simp) (by simpa using hc)
  simp [bareAttribute?, hspan, dropFinalSlashes]

/-- The name of an attribute without a value, followed by the slash that ends the tag, is read up to
the slash. -/
theorem IsAttributeName.spanOf_append_slash {name : Text} (h : IsAttributeName name) (t : Text) :
    spanOf isAttributeNameChar (name ++ '/' :: '>' :: t) = (name ++ ['/'], '>' :: t) := by
  have hchars : ∀ c ∈ name ++ ['/'], isAttributeNameChar c := by
    intro c hc
    rcases List.mem_append.mp hc with hc | hc
    · exact h.chars c hc
    · obtain rfl : c = '/' := by simpa using hc
      decide
  have hspan := Markup.spanOf_append_eq (b := '>' :: t) hchars (by simp; decide)
  simpa using hspan

theorem IsAttributeName.bare_append {name r : Text} (h : IsAttributeName name) {a : Attribute}
    (hr : Ends a r) :
    valuedAttribute? (name ++ r) = none ∧ bareAttribute? (name ++ r) = some (name, r) := by
  rcases hr with ⟨c, t, rfl, hc, -, hne⟩ | ⟨⟨t, rfl⟩, -⟩
  · have hspan := h.spanOf_append (r := c :: t) (by simpa using hc)
    constructor
    · simp [valuedAttribute?, hspan, hne]
    · simp [bareAttribute?, hspan, dropFinalSlashes_eq_self h.last, h.ne_nil]
  · have hspan := h.spanOf_append_slash t
    constructor
    · simp [valuedAttribute?, hspan]
    · simp [bareAttribute?, hspan, dropFinalSlashes_concat_slash,
        dropFinalSlashes_eq_self h.last, h.ne_nil]

/-- An attribute is read to its end and no further where it ends. -/
theorem IsAttribute.read_append {s r : Text} {a : Attribute} (h : IsAttribute s a) (hr : Ends a r) :
    (valuedAttribute? (s ++ r)).or (bareAttribute? (s ++ r)) = some (s, r) := by
  cases h with
  | name hname =>
    obtain ⟨hvalued, hbare⟩ := hname.bare_append hr
    rw [hvalued, hbare]
    rfl
  | @quoted name value q quote hname hquote hq hvalue =>
    have hvalued : valuedAttribute? (name ++ '=' :: q :: (value ++ [q]) ++ r) =
        some (name ++ '=' :: q :: (value ++ [q]), r) := by
      have hspan := hname.spanOf_append_eq (q :: (value ++ q :: r))
      have hrest := quotedRest?_append_cons hvalue r
      rcases quote_cases hquote hq with ⟨-, rfl⟩ | ⟨-, rfl⟩
      · simp [valuedAttribute?, hspan, hrest, hname.ne_nil, hname.last]
      · simp [valuedAttribute?, hspan, hrest, hname.ne_nil, hname.last]
    rw [hvalued]
    rfl
  | @bare name value hname hne hvalue =>
    have hstop : ∀ c ∈ r.head?, isBareValueChar c = false := by
      rcases hr with ⟨c, t, rfl, -, hc, -⟩ | ⟨-, hquoted⟩
      · simpa using hc
      · exact absurd ⟨rfl, rfl⟩ hquoted
    have hvalued : valuedAttribute? (name ++ '=' :: value ++ r) =
        some (name ++ '=' :: value, r) := by
      have hspan := hname.spanOf_append_eq (value ++ r)
      have hrest : spanOf isBareValueChar (value ++ r) = (value, r) :=
        Markup.spanOf_append_eq hvalue hstop
      obtain ⟨c, value, rfl⟩ := List.exists_cons_of_ne_nil hne
      have hc := hvalue c List.mem_cons_self
      have hquote : c ≠ '\'' ∧ c ≠ '"' := by
        constructor <;>
        · rintro rfl
          exact absurd hc (by decide)
      rw [List.cons_append] at hspan hrest
      simp [valuedAttribute?, hspan, hrest, hname.ne_nil, hname.last, hquote.1, hquote.2]
    rw [hvalued]
    rfl

/-- The blanks are plain and there is at least one. -/
structure IsPlainGap (b : Text) : Prop where
  ne_nil : b ≠ []
  blank : ∀ c ∈ b, isBlank c
  plain : ∀ c ∈ b, isAttributeNameChar c = false

theorem isPlainGap_of_hasPlainBlanks {b : Text} (hne : b ≠ []) (hb : ∀ c ∈ b, isBlank c)
    (h : HasPlainBlanks b) :
    IsPlainGap b :=
  ⟨hne, hb, fun c hc => isAttributeNameChar_of_mem_plainBlanks (h c hc (hb c hc))⟩

/-- After plain blanks an attribute is read where the blanks end or not at all. -/
theorem afterBlanks_append_eq {read : Text → Option (Text × Text)}
    (hread : ∀ {c}, isAttributeNameChar c = false → ∀ s, read (c :: s) = none) {b w : Text}
    (hb : IsPlainGap b) (hw : startsBlank w = false) :
    afterBlanks read (b ++ w) = (read w).map fun (a, rest) => (b ++ a, rest) := by
  have hspan : spanOf isBlank (b ++ w) = (b, w) := by
    apply spanOf_append_eq hb.blank
    intro c hc
    rw [startsBlank, Option.mem_def.mp hc] at hw
    simpa using hw
  obtain ⟨n, hn⟩ : ∃ n, b.length = n + 1 := by
    have := List.length_pos_iff.mpr hb.ne_nil
    exact ⟨b.length - 1, by omega⟩
  have hfirst : ((b ++ w).take (n + 1), (b ++ w).drop (n + 1)) = (b, w) := by
    rw [← hn, List.take_left, List.drop_left]
  unfold afterBlanks blankSplits
  rw [hspan, hn, List.range_succ, List.map_append, List.reverse_append, List.map_singleton, hfirst,
    List.reverse_singleton, List.singleton_append, List.findSome?_cons]
  dsimp only
  cases read w with
  | some x => rfl
  | none =>
    -- with fewer blanks taken, the reader meets a blank
    refine List.findSome?_eq_none_iff.mpr fun x hx => ?_
    simp only [List.mem_reverse, List.mem_map, List.mem_range] at hx
    obtain ⟨k, hk, rfl⟩ := hx
    have hlt : k + 1 < b.length := by omega
    have hdrop : (b ++ w).drop (k + 1) = b.get ⟨k + 1, hlt⟩ :: (b.drop (k + 2) ++ w) := by
      rw [List.drop_append_of_le_length (by omega), List.drop_eq_getElem_cons hlt]
      rfl
    simp only [hdrop, hread (hb.plain _ (List.get_mem b ⟨k + 1, hlt⟩)), Option.map_none]

theorem spacedAttribute?_append_eq {b w : Text} (hb : IsPlainGap b) (hw : startsBlank w = false) :
    spacedAttribute? (b ++ w) =
      ((valuedAttribute? w).or (bareAttribute? w)).map fun (a, rest) => (b ++ a, rest) := by
  rw [spacedAttribute?_eq, afterBlanks_append_eq valuedAttribute?_eq_none_of_head hb hw,
    afterBlanks_append_eq bareAttribute?_eq_none_of_head hb hw]
  cases valuedAttribute? w <;> rfl

theorem SpacedAttribute.isPlainGap (x : SpacedAttribute) (h : HasPlainBlanks x.text) :
    IsPlainGap x.blanks :=
  isPlainGap_of_hasPlainBlanks x.ne_nil x.blank (h.of_isInfix (List.prefix_append _ _).isInfix)

theorem SpacedAttribute.read_append (x : SpacedAttribute) (hx : HasPlainBlanks x.text) {r : Text}
    (hr : Ends x.parsed r) : spacedAttribute? (x.text ++ r) = some (x.text, r) := by
  have hwritten : HasPlainBlanks x.written := hx.of_isInfix (List.suffix_append _ _).isInfix
  obtain ⟨⟨c, u, hfirst, hc⟩, -⟩ := x.isAttribute.ends hwritten
  have hstart : startsBlank (x.written ++ r) = false := by
    rw [hfirst]
    exact hc
  rw [SpacedAttribute.text, List.append_assoc, spacedAttribute?_append_eq (x.isPlainGap hx) hstart,
    x.isAttribute.read_append hr]
  rfl

/-- The blanks before the end of a tag, and the end. -/
theorem spacedAttribute?_tagEnd {gap : Text} (hgap : ∀ c ∈ gap, isBlank c)
    (hplain : HasPlainBlanks gap) (ending : Ending) (r : Text) :
    spacedAttribute? (gap ++ ending.written ++ r) = none := by
  have hstart : startsBlank (ending.written ++ r) = false := by cases ending <;> rfl
  have hread : (valuedAttribute? (ending.written ++ r)).or (bareAttribute? (ending.written ++ r)) =
      none := by
    cases ending with
    | plain =>
      have hc : isAttributeNameChar '>' = false := by decide
      exact Option.or_eq_none_iff.mpr
        ⟨valuedAttribute?_eq_none_of_head hc r, bareAttribute?_eq_none_of_head hc r⟩
    | slash =>
      have hspan : spanOf isAttributeNameChar ('/' :: '>' :: r) = (['/'], '>' :: r) :=
        spanOf_append_eq (a := ['/']) (b := '>' :: r) (by simp; decide) (by simp; decide)
      simp [Ending.written, valuedAttribute?, bareAttribute?, hspan, dropFinalSlashes]
  rw [List.append_assoc]
  by_cases hnil : gap = []
  · have hspan : spanOf isBlank (ending.written ++ r) = ([], ending.written ++ r) := by
      apply spanOf_append_eq (a := []) (by simp)
      cases ending <;> simp [Ending.written] <;> decide
    rw [hnil, List.nil_append]
    simp [spacedAttribute?, blankSplits, hspan]
  · rw [spacedAttribute?_append_eq (isPlainGap_of_hasPlainBlanks hnil hgap hplain) hstart, hread]
    rfl

/-- The end of a tag may follow an attribute, except a slash right after a value without quotes. -/
theorem ends_tagEnd {a : Attribute} {gap : Text} (hgap : ∀ c ∈ gap, isBlank c)
    (hplain : HasPlainBlanks gap) {ending : Ending}
    (h : gap = [] → ending = .slash → ¬ a.IsUnquoted) (r : Text) :
    Ends a (gap ++ ending.written ++ r) := by
  cases gap with
  | nil =>
    cases ending with
    | plain => exact Or.inl ⟨'>', r, rfl, by decide, by decide, by decide⟩
    | slash => exact Or.inr ⟨⟨r, rfl⟩, h rfl rfl⟩
  | cons c gap =>
    have hc : isBlank c := hgap c List.mem_cons_self
    exact ends_of_blank hc
      (isAttributeNameChar_of_mem_plainBlanks (hplain c List.mem_cons_self hc)) _ _

/-- Attributes put together are read back one by one. -/
theorem attributeList_flatMap {l : List SpacedAttribute}
    (hl : HasPlainBlanks (l.flatMap SpacedAttribute.text)) {e : Text}
    (he : spacedAttribute? e = none) (hlast : ∀ x ∈ l.getLast?, Ends x.parsed e) :
    attributeList (l.flatMap SpacedAttribute.text ++ e) = (l.flatMap SpacedAttribute.text, e) := by
  induction l with
  | nil => exact attributeList_of_eq_none he
  | cons x l ih =>
    have hx : HasPlainBlanks x.text := hl.of_isInfix ⟨[], l.flatMap SpacedAttribute.text, by simp⟩
    have hrest : HasPlainBlanks (l.flatMap SpacedAttribute.text) :=
      hl.of_isInfix ⟨x.text, [], by simp⟩
    have hends : Ends x.parsed (l.flatMap SpacedAttribute.text ++ e) := by
      cases l with
      | nil => exact hlast x rfl
      | cons y l =>
        obtain ⟨d, b, hb⟩ := List.exists_cons_of_ne_nil y.ne_nil
        have htext : (y :: l).flatMap SpacedAttribute.text ++ e =
            d :: (b ++ y.written ++ l.flatMap SpacedAttribute.text ++ e) := by
          simp [SpacedAttribute.text, hb]
        obtain ⟨hblank, hplain⟩ := stops_flatMap hrest d (by simp [SpacedAttribute.text, hb])
        rw [htext]
        exact ends_of_blank hblank hplain _ _
    have hread := x.read_append hx hends
    rw [← List.append_assoc, ← List.flatMap_cons] at hread
    have ih := ih hrest fun y hy => hlast y (by
      cases l with
      | nil => simp at hy
      | cons z l => rwa [List.getLast?_cons_cons])
    rw [attributeList_of_eq_some hread, ih, List.flatMap_cons]

/-- An opening tag put together from its parts is read back in them, if no slash follows a value
without quotes. -/
theorem tag?_opening {name : Text} (hname : isTagName name) {l : List SpacedAttribute}
    (hl : HasPlainBlanks (l.flatMap SpacedAttribute.text)) {gap : Text}
    (hgap : ∀ c ∈ gap, isBlank c) (hplain : HasPlainBlanks gap) {ending : Ending}
    (hlast : gap = [] → ending = .slash → ∀ x ∈ l.getLast?, ¬ x.parsed.IsUnquoted) (r : Text) :
    tag? ('<' :: (name ++ (l.flatMap SpacedAttribute.text ++ (gap ++ ending.written ++ r)))) =
      some (.opening name (l.flatMap SpacedAttribute.text) gap ending, r) := by
  obtain ⟨hne, hchars⟩ := isTagName_iff.mp hname
  have hlist : attributeList (l.flatMap SpacedAttribute.text ++ (gap ++ ending.written ++ r)) =
      (l.flatMap SpacedAttribute.text, gap ++ ending.written ++ r) := by
    apply attributeList_flatMap hl (spacedAttribute?_tagEnd hgap hplain ending r)
    intro x hx
    exact ends_tagEnd hgap hplain (fun hnil hslash => hlast hnil hslash x hx) r
  -- the name ends at a blank or at the end of the tag
  have hhead : ∀ c ∈ (l.flatMap SpacedAttribute.text ++ (gap ++ ending.written ++ r)).head?,
      isTagNameChar c = false := by
    intro c hc
    cases hl' : l.flatMap SpacedAttribute.text with
    | nil =>
      rw [hl', List.nil_append] at hc
      cases gap with
      | nil =>
        cases ending with
        | plain =>
          obtain rfl : '>' = c := by simpa [Ending.written] using hc
          decide
        | slash =>
          obtain rfl : '/' = c := by simpa [Ending.written] using hc
          decide
      | cons d gap =>
        obtain rfl : d = c := by simpa using hc
        exact isTagNameChar_eq_false_of_isBlank (hgap d List.mem_cons_self)
    | cons d t =>
      rw [hl'] at hc
      obtain rfl : d = c := by simpa using hc
      exact isTagNameChar_eq_false_of_isBlank (stops_flatMap hl d (by rw [hl']; rfl)).1
  rw [tag?_eq_openingTag? (head?_ne_slash_of_isTagName hname _)]
  exact openingTag?_of_parts hne (spanOf_append_eq hchars hhead) hlist hgap

theorem IsAttribute.append_slash {s : Text} {a : Attribute} (h : IsAttribute s a)
    (ha : a.IsUnquoted) :
    ∃ a', IsAttribute (s ++ ['/']) a' ∧ a'.name = a.name := by
  cases h with
  | name => simp [Attribute.IsUnquoted] at ha
  | quoted hname hquote => exact absurd ha.2 hquote
  | @bare name value hname hne hvalue =>
    refine ⟨⟨name, some (value ++ ['/']), .bare⟩, ?_, rfl⟩
    rw [List.append_assoc, List.cons_append]
    refine .bare hname (by simp) fun c hc => ?_
    rcases List.mem_append.mp hc with hc | hc
    · exact hvalue c hc
    · obtain rfl : c = '/' := by simpa using hc
      decide

/-- A slash after a last value without quotes makes a list of attributes with the same names. -/
theorem exists_attributes_slash {l : List SpacedAttribute}
    (hl : HasPlainBlanks (l.flatMap SpacedAttribute.text)) {x : SpacedAttribute}
    (hlast : l.getLast? = some x) (hx : x.parsed.IsUnquoted) :
    ∃ m : List SpacedAttribute, m.flatMap SpacedAttribute.text =
      l.flatMap SpacedAttribute.text ++ ['/'] ∧
      HasPlainBlanks (m.flatMap SpacedAttribute.text) ∧
        (m.map fun y => y.parsed.name) = l.map fun y => y.parsed.name := by
  obtain ⟨front, rfl⟩ := List.getLast?_eq_some_iff.mp hlast
  obtain ⟨a, ha, hname⟩ := x.isAttribute.append_slash hx
  have htext :
      (front ++ [(⟨x.blanks, x.written ++ ['/'], a, x.ne_nil, x.blank, ha⟩ :
        SpacedAttribute)]).flatMap SpacedAttribute.text =
      (front ++ [x]).flatMap SpacedAttribute.text ++ ['/'] := by
    simp [SpacedAttribute.text]
  refine ⟨_, htext, ?_, by simp [hname]⟩
  intro c hc hblank
  rw [htext] at hc
  rcases List.mem_append.mp hc with hc | hc
  · exact hl c hc hblank
  · obtain rfl : c = '/' := by simpa using hc
    revert hblank
    decide

/-- A last value without quotes takes in a slash that follows it, and the tag does not close
itself. -/
theorem exists_tag?_of_isUnquoted {name : Text} (hname : isTagName name) {l : List SpacedAttribute}
    (hl : HasPlainBlanks (l.flatMap SpacedAttribute.text)) {x : SpacedAttribute}
    (hlast : l.getLast? = some x) (hx : x.parsed.IsUnquoted) (r : Text) :
    ∃ attributes,
      tag? ('<' :: (name ++ (l.flatMap SpacedAttribute.text ++ (Ending.slash.written ++ r)))) =
      some (.opening name attributes [] .plain, r) := by
  obtain ⟨m, htext, hplain, -⟩ := exists_attributes_slash hl hlast hx
  have hread :
    tag? ('<' :: (name ++ (m.flatMap SpacedAttribute.text ++ ([] ++ Ending.plain.written ++ r)))) =
      some (.opening name (m.flatMap SpacedAttribute.text) [] .plain, r) :=
    tag?_opening hname hplain (by simp) (by simp [HasPlainBlanks]) (by simp) r
  refine ⟨m.flatMap SpacedAttribute.text, ?_⟩
  rw [← hread, htext]
  simp [Ending.written]

end ErbLayout.Markup
