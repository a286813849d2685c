import ErbLayout.Proofs.Markup.AttributeList

/-!
The attributes of a tag read twice. Reading the tag takes blanks and attributes one after the other;
laying it out looks for attributes in the text that was taken. When the only blanks in that text are
those that no attribute name can hold, the second reading finds the attributes of the first, with
the blanks between them and nothing passed over.
-/

namespace ErbLayout.Markup

open Text

def plainBlanks : List Char := ['\t', '\n', '\x0b', '\x0c', '\r', ' ']

/-- Every blank of the text is one that no attribute name can hold. -/
def HasPlainBlanks (s : Text) : Prop := ∀ c ∈ s, isBlank c → c ∈ plainBlanks

instance (s : Text) : Decidable (HasPlainBlanks s) :=
  List.decidableBAll (fun c => isBlank c → c ∈ plainBlanks) s

theorem isAttributeNameChar_of_mem_plainBlanks {c : Char} (h : c ∈ plainBlanks) :
    isAttributeNameChar c = false := by
  simp only [plainBlanks, List.mem_cons, List.not_mem_nil, or_false] at h
  rcases h with rfl | rfl | rfl | rfl | rfl | rfl <;> decide

theorem HasPlainBlanks.of_isInfix {s t : Text} (h : HasPlainBlanks t) (hs : s <:+: t) :
    HasPlainBlanks s :=
  fun c hc => h c (hs.subset hc)

theorem HasPlainBlanks.isBlank_eq_false {s : Text} (h : HasPlainBlanks s) {c : Char} (hc : c ∈ s)
    (hname : isAttributeNameChar c) : isBlank c = false := by
  by_contra hblank
  have hplain := isAttributeNameChar_of_mem_plainBlanks (h c hc (by simpa using hblank))
  rw [hname] at hplain
  simp at hplain

/-- Nothing that can follow an attribute in a list belongs to it. -/
def Stops (r : Text) : Prop := ∀ c ∈ r.head?, isBlank c ∧ isAttributeNameChar c = false

theorem Stops.ne_eq {r : Text} (h : Stops r) : r.head? ≠ some '=' := by
  intro hhead
  have := (h '=' hhead).1
  revert this
  decide

theorem isBareValueChar_of_isAttributeNameChar {c : Char} (h : isAttributeNameChar c)
    (hblank : isBlank c = false) : isBareValueChar c := by
  simp only [isAttributeNameChar, Bool.not_eq_true', Bool.or_eq_false_iff] at h
  simp [isBareValueChar, hblank, h]

theorem isBlank_eq_false_of_isBareValueChar {c : Char} (h : isBareValueChar c) :
    isBlank c = false := by
  simp only [isBareValueChar, Bool.not_eq_true', Bool.or_eq_false_iff] at h
  exact h.2

theorem Stops.isBareValueChar_eq_false {r : Text} (h : Stops r) :
    ∀ c ∈ r.head?, isBareValueChar c = false := by
  intro c hc
  simp [isBareValueChar, (h c hc).1]

theorem IsAttributeName.spanOf_append {name r : Text} (h : IsAttributeName name)
    (hr : ∀ c ∈ r.head?, isAttributeNameChar c = false) :
    spanOf isAttributeNameChar (name ++ r) = (name, r) := spanOf_append_eq h.chars hr

theorem IsAttributeName.spanOf_append_eq {name : Text} (h : IsAttributeName name) (r : Text) :
    spanOf isAttributeNameChar (name ++ '=' :: r) = (name, '=' :: r) :=
  h.spanOf_append (isAttributeNameChar_eq_false_of_eq r)

theorem quote_cases {quote : Quote} {q : Char} (hne : quote ≠ .bare) (hq : quote.written = [q]) :
    quote = .apostrophe ∧ q = '\'' ∨ quote = .quotation ∧ q = '"' := by
  cases quote with
  | bare => exact absurd rfl hne
  | apostrophe => exact Or.inl ⟨rfl, by simpa [Quote.written, eq_comm] using hq⟩
  | quotation => exact Or.inr ⟨rfl, by simpa [Quote.written, eq_comm] using hq⟩

/-- An attribute in a list is read to its end and no further. -/
theorem IsAttribute.run_append {s r : Text} {a : Attribute} (h : IsAttribute s a)
    (hs : HasPlainBlanks s) (hr : Stops r) : attributeTexts.run (s ++ r) = some (s, r) := by
  change attribute? (s ++ r) = some (s, r)
  unfold attribute?
  cases h with
  | name hname =>
    -- a name alone is read by the reader of bare values, which stops at the blank as the name does
    have hvalued : valuedAttribute? (s ++ r) = none := by
      have hspan := hname.spanOf_append fun c hc => (hr c hc).2
      have hne := hr.ne_eq
      cases r with
      | nil =>
        rw [List.append_nil] at hspan
        simp [valuedAttribute?, hspan]
      | cons c r =>
        have hc : c ≠ '=' := by simpa using hne
        simp [valuedAttribute?, hspan, hc]
    have hspan : spanOf isBareValueChar (s ++ r) = (s, r) := by
      apply Markup.spanOf_append_eq _ hr.isBareValueChar_eq_false
      intro c hc
      exact isBareValueChar_of_isAttributeNameChar (hname.chars c hc)
        (hs.isBlank_eq_false hc (hname.chars c hc))
    simp [hvalued, bareValue?, hspan, hname.ne_nil]
  | @quoted name value q quote hname hquote hq hvalue =>
    have hvalued : valuedAttribute? (name ++ '=' :: q :: (value ++ [q]) ++ r) =
        some (name ++ '=' :: q :: (value ++ [q]), r) := by
      have hspan := hname.spanOf_append_eq (q :: (value ++ q :: r))
      have hrest := quotedRest?_append_cons hvalue r
      rcases quote_cases hquote hq with ⟨-, rfl⟩ | ⟨-, rfl⟩
      · simp [valuedAttribute?, hspan, hrest, hname.ne_nil, hname.last]
      · simp [valuedAttribute?, hspan, hrest, hname.ne_nil, hname.last]
    rw [hvalued]
    rfl
  | @bare name value hname hne hvalue =>
    have hvalued : valuedAttribute? (name ++ '=' :: value ++ r) =
        some (name ++ '=' :: value, r) := by
      have hspan := hname.spanOf_append_eq (value ++ r)
      have hrest : spanOf isBareValueChar (value ++ r) = (value, r) :=
        Markup.spanOf_append_eq hvalue hr.isBareValueChar_eq_false
      obtain ⟨c, value, rfl⟩ := List.exists_cons_of_ne_nil hne
      have hc := hvalue c List.mem_cons_self
      have hquote : c ≠ '\'' ∧ c ≠ '"' := by
        constructor <;>
        · rintro rfl
          exact absurd hc (by decide)
      rw [List.cons_append] at hspan hrest
      simp [valuedAttribute?, hspan, hrest, hname.ne_nil, hname.last, hquote.1, hquote.2]
    rw [hvalued]
    rfl

/-- Nothing is read where a blank stands that no name can hold. -/
theorem run_eq_none_of_blank {c : Char} (hblank : isBlank c)
    (hplain : isAttributeNameChar c = false) (s : Text) :
    attributeTexts.run (c :: s) = none := by
  have hname : spanOf isAttributeNameChar (c :: s) = ([], c :: s) :=
    spanOf_append_eq (a := []) (by simp) (by simpa using hplain)
  have hvalue : spanOf isBareValueChar (c :: s) = ([], c :: s) :=
    spanOf_append_eq (a := []) (by simp) (by simp [isBareValueChar, hblank])
  change attribute? (c :: s) = none
  simp [attribute?, valuedAttribute?, bareValue?, hname, hvalue]

theorem stops_flatMap {l : List SpacedAttribute}
    (h : HasPlainBlanks (l.flatMap SpacedAttribute.text)) :
    Stops (l.flatMap SpacedAttribute.text) := by
  cases l with
  | nil => simp [Stops]
  | cons x l =>
    intro c hc
    obtain ⟨d, b, hb⟩ := List.exists_cons_of_ne_nil x.ne_nil
    obtain rfl : d = c := by simpa [SpacedAttribute.text, hb] using hc
    have hblank : isBlank d := x.blank d (by simp [hb])
    have hmem : d ∈ (x :: l).flatMap SpacedAttribute.text := List.mem_of_mem_head? hc
    exact ⟨hblank, isAttributeNameChar_of_mem_plainBlanks (h d hmem hblank)⟩

theorem first?_attributeTexts {b s r : Text} {a : Attribute} (hs : IsAttribute s a)
    (hb : ∀ c ∈ b, isBlank c) (h : HasPlainBlanks (b ++ s)) (hr : Stops r) :
    attributeTexts.first? (b ++ (s ++ r)) = some (b, s, r) := by
  rw [Recogniser.first?_eq_some_iff]
  refine ⟨rfl, hs.run_append (h.of_isInfix (List.suffix_append b s).isInfix) hr, ?_⟩
  intro v hv hne
  obtain ⟨c, v, rfl⟩ := List.exists_cons_of_ne_nil hne
  have hc : c ∈ b := hv.subset List.mem_cons_self
  have hplain := h c (List.mem_append_left s hc) (hb c hc)
  exact run_eq_none_of_blank (hb c hc) (isAttributeNameChar_of_mem_plainBlanks hplain) _

/-- Attributes one after the other are split where they were put together. -/
theorem split_attributeTexts {b s : Text} {a : Attribute} {l : List SpacedAttribute}
    (hs : IsAttribute s a) (hb : ∀ c ∈ b, isBlank c)
    (h : HasPlainBlanks (b ++ (s ++ l.flatMap SpacedAttribute.text))) :
    attributeTexts.split (b ++ (s ++ l.flatMap SpacedAttribute.text)) =
      ((b, s) :: l.map fun x => (x.blanks, x.written), []) := by
  -- one attribute is kept in front of the list: once blanks are trimmed, reading begins inside it
  induction l generalizing b s a with
  | nil =>
    have hfirst : attributeTexts.first? (b ++ (s ++ [])) = some (b, s, []) :=
      first?_attributeTexts hs hb (h.of_isInfix ⟨[], [], by simp⟩) (by simp [Stops])
    rw [List.flatMap_nil, Recogniser.split_of_first?_eq_some hfirst,
      Recogniser.split_of_first?_eq_none rfl]
    rfl
  | cons x l ih =>
    have hrest : HasPlainBlanks ((x :: l).flatMap SpacedAttribute.text) :=
      h.of_isInfix ⟨b ++ s, [], by simp⟩
    have hfirst := first?_attributeTexts hs hb
      (h.of_isInfix ⟨[], (x :: l).flatMap SpacedAttribute.text, by simp⟩) (stops_flatMap hrest)
    have htext : (x :: l).flatMap SpacedAttribute.text =
        x.blanks ++ (x.written ++ l.flatMap SpacedAttribute.text) := by
      simp [SpacedAttribute.text]
    rw [Recogniser.split_of_first?_eq_some hfirst, htext, ih x.isAttribute x.blank (htext ▸ hrest)]
    rfl

theorem IsAttribute.ends {s : Text} {a : Attribute} (h : IsAttribute s a) (hs : HasPlainBlanks s) :
    (∃ c u, s = c :: u ∧ isBlank c = false) ∧ ∃ v d, s = v ++ [d] ∧ isBlank d = false := by
  have hstart : ∀ {name t : Text}, IsAttributeName name → s = name ++ t →
      ∃ c u, s = c :: u ∧ isBlank c = false := by
    rintro name t hname rfl
    obtain ⟨c, name, rfl⟩ := List.exists_cons_of_ne_nil hname.ne_nil
    exact ⟨c, name ++ t, rfl, hs.isBlank_eq_false (by simp) (hname.chars c List.mem_cons_self)⟩
  cases h with
  | name hname =>
    refine ⟨hstart hname (List.append_nil s).symm, ?_⟩
    obtain ⟨v, d, hd⟩ := (List.eq_nil_or_concat s).resolve_left hname.ne_nil
    rw [List.concat_eq_append] at hd
    have hmem : d ∈ s := by simp [hd]
    exact ⟨v, d, hd, hs.isBlank_eq_false hmem (hname.chars d hmem)⟩
  | @quoted name value q quote hname hquote hq hvalue =>
    refine ⟨hstart hname rfl, name ++ '=' :: q :: value, q, by simp, ?_⟩
    rcases quote_cases hquote hq with ⟨-, rfl⟩ | ⟨-, rfl⟩ <;> decide
  | @bare name value hname hne hvalue =>
    refine ⟨hstart hname rfl, ?_⟩
    obtain ⟨v, d, rfl⟩ := (List.eq_nil_or_concat value).resolve_left hne
    rw [List.concat_eq_append] at hvalue ⊢
    have hd : isBareValueChar d := hvalue d (by simp)
    refine ⟨name ++ '=' :: v, d, by simp, ?_⟩
    by_contra hblank
    simp [isBareValueChar, hblank] at hd

theorem cutFirst?_eq_none {c : Char} {s : Text} (h : c ∉ s) : cutFirst? c s = none := by
  induction s with
  | nil => rfl
  | cons d s ih =>
    obtain ⟨hd, hs⟩ : c ≠ d ∧ c ∉ s := by simpa using h
    simp [cutFirst?, Ne.symm hd, ih hs]

theorem append_of_cutFirst? {c : Char} {s u v : Text} (h : cutFirst? c s = some (u, v)) :
    s = u ++ c :: v := by
  induction s generalizing u with
  | nil => simp [cutFirst?] at h
  | cons d s ih =>
    rw [cutFirst?] at h
    split at h
    next hd =>
      obtain ⟨rfl, rfl⟩ := Prod.mk.inj (Option.some.inj h)
      rw [hd]
      rfl
    next =>
      obtain ⟨⟨a, b⟩, hcut, heq⟩ := Option.map_eq_some_iff.mp h
      obtain ⟨rfl, rfl⟩ := Prod.mk.inj heq
      rw [ih hcut]
      rfl

theorem trim_append_cons {name r : Text} {d : Char} (hd : isBlank d = false) :
    trim (name ++ '=' :: (r ++ [d])) = trimStart name ++ '=' :: (r ++ [d]) := by
  obtain ⟨b, hb, hblank⟩ := exists_append_trimStart name
  obtain ⟨c, u, hfirst, hc⟩ : ∃ c u, trimStart name ++ '=' :: (r ++ [d]) = c :: u ∧
      isBlank c = false := by
    have hhead := List.head?_dropWhile_not isBlank name
    cases htrim : trimStart name with
    | nil => exact ⟨'=', r ++ [d], rfl, by decide⟩
    | cons c u =>
      rw [trimStart] at htrim
      exact ⟨c, u ++ '=' :: (r ++ [d]), rfl, by simpa [htrim] using hhead⟩
  conv_lhs => rw [hb, List.append_assoc]
  exact trim_append (v := trimStart name ++ '=' :: r) hblank hfirst (by simp) hc hd

/-- An attribute with a value has the blanks before its name taken away when it is read from its
text. -/
theorem IsAttribute.ofText_of_isSome {s : Text} {a : Attribute} (h : IsAttribute s a)
    (hvalue : a.value.isSome) :
    Attribute.ofText s = { a with name := trimStart a.name } := by
  have heq : ∀ {name : Text}, IsAttributeName name → '=' ∉ trimStart name := fun hname hmem =>
    hname.eq_notMem ((List.dropWhile_suffix isBlank).subset hmem)
  unfold Attribute.ofText
  cases h with
  | name => simp at hvalue
  | @quoted name value q quote hname hquote hq =>
    have hblank : isBlank q = false := by
      rcases quote_cases hquote hq with ⟨-, rfl⟩ | ⟨-, rfl⟩ <;> decide
    have htrim : trim (name ++ '=' :: q :: (value ++ [q])) = trimStart name ++ '=' :: q ::
        (value ++ [q]) :=
      trim_append_cons (r := q :: value) hblank
    simp only [htrim]
    rw [cutFirst?_append_cons (heq hname)]
    rcases quote_cases hquote hq with ⟨rfl, rfl⟩ | ⟨rfl, rfl⟩
    · simp [isBareValue, isBareValueChar, unquote?]
    · simp [isBareValue, isBareValueChar, unquote?]
  | @bare name value hname hne hchars =>
    have hbare : isBareValue value := by simpa [isBareValue, hne] using hchars
    have htrim : trim (name ++ '=' :: value) = trimStart name ++ '=' :: value := by
      obtain ⟨v, d, rfl⟩ := (List.eq_nil_or_concat value).resolve_left hne
      rw [List.concat_eq_append] at hchars ⊢
      exact trim_append_cons (isBlank_eq_false_of_isBareValueChar (hchars d (by simp)))
    simp only [htrim]
    rw [cutFirst?_append_cons (heq hname)]
    simp [hbare]

theorem IsAttribute.ofText_eq {s : Text} {a : Attribute} (h : IsAttribute s a)
    (hs : HasPlainBlanks s) :
    Attribute.ofText s = a := by
  have hstart : ∀ {name t : Text}, IsAttributeName name → s = name ++ t →
      trimStart name = name := by
    rintro name t hname rfl
    obtain ⟨c, name, rfl⟩ := List.exists_cons_of_ne_nil hname.ne_nil
    have hc := hs.isBlank_eq_false (c := c) (by simp) (hname.chars c List.mem_cons_self)
    exact List.dropWhile_cons_of_neg (by simp [hc])
  have hread := h.ofText_of_isSome
  cases h with
  | name hname =>
    obtain ⟨⟨c, u, hfirst, hc⟩, v, d, hlast, hd⟩ := (IsAttribute.name hname).ends hs
    have htrim : trim s = s := trim_append (b := []) (by simp) hfirst hlast hc hd
    unfold Attribute.ofText
    simp only [htrim]
    rw [cutFirst?_eq_none hname.eq_notMem]
  | quoted hname => rw [hread rfl, hstart hname rfl]
  | bare hname => rw [hread rfl, hstart hname rfl]

theorem SpacedAttribute.plain_of_mem {l : List SpacedAttribute} {x : SpacedAttribute} (hx : x ∈ l)
    (h : HasPlainBlanks (l.flatMap SpacedAttribute.text)) : HasPlainBlanks x.written := by
  intro c hc
  exact h c (List.mem_flatMap.mpr ⟨x, hx, List.mem_append_right x.blanks hc⟩)

theorem exists_append_flatMap_eq {s : Text} {a : Attribute} {l : List SpacedAttribute}
    (hs : IsAttribute s a) (h : HasPlainBlanks (s ++ l.flatMap SpacedAttribute.text)) :
    ∃ v d, s ++ l.flatMap SpacedAttribute.text = v ++ [d] ∧ isBlank d = false := by
  induction l generalizing s a with
  | nil =>
    obtain ⟨-, v, d, hlast, hd⟩ := hs.ends (h.of_isInfix ⟨[], [], by simp⟩)
    exact ⟨v, d, by simpa using hlast, hd⟩
  | cons x l ih =>
    obtain ⟨v, d, hlast, hd⟩ :=
      ih x.isAttribute (h.of_isInfix ⟨s ++ x.blanks, [], by simp [SpacedAttribute.text]⟩)
    exact ⟨s ++ x.blanks ++ v, d, by simp [SpacedAttribute.text, ← hlast], hd⟩

/-- Trimming an attribute list takes away the blanks before the first attribute. -/
theorem trim_attributes {x : SpacedAttribute} {l : List SpacedAttribute}
    (h : HasPlainBlanks ((x :: l).flatMap SpacedAttribute.text)) :
    trim ((x :: l).flatMap SpacedAttribute.text) = x.written ++ l.flatMap SpacedAttribute.text := by
  have hrest : HasPlainBlanks (x.written ++ l.flatMap SpacedAttribute.text) :=
    h.of_isInfix ⟨x.blanks, [], by simp [SpacedAttribute.text]⟩
  obtain ⟨⟨c, u, hfirst, hc⟩, -⟩ :=
    x.isAttribute.ends (SpacedAttribute.plain_of_mem List.mem_cons_self h)
  obtain ⟨v, d, hlast, hd⟩ := exists_append_flatMap_eq x.isAttribute hrest
  have htrim := trim_append (u := u ++ l.flatMap SpacedAttribute.text) x.blank (by rw [hfirst]; rfl)
    hlast hc hd
  rw [List.flatMap_cons, SpacedAttribute.text, List.append_assoc, htrim]

theorem allBlank_trim_attributes {x : SpacedAttribute} {l : List SpacedAttribute}
    (h : HasPlainBlanks ((x :: l).flatMap SpacedAttribute.text)) :
    allBlank (trim ((x :: l).flatMap SpacedAttribute.text)) = false := by
  obtain ⟨⟨c, u, hfirst, hc⟩, -⟩ :=
    x.isAttribute.ends (SpacedAttribute.plain_of_mem List.mem_cons_self h)
  rw [trim_attributes h, hfirst]
  simp [allBlank, hc]

theorem map_ofText {l : List SpacedAttribute} (h : ∀ x ∈ l, HasPlainBlanks x.written) :
    (l.map fun x => Attribute.ofText x.written) = l.map SpacedAttribute.parsed :=
  List.map_congr_left fun x hx => x.isAttribute.ofText_eq (h x hx)

/-- The second reading finds the attributes of the first, whether the blanks around the list were
taken away before or not. -/
theorem attributesOf_flatMap {l : List SpacedAttribute}
    (h : HasPlainBlanks (l.flatMap SpacedAttribute.text)) :
    attributesOf (l.flatMap SpacedAttribute.text) = l.map SpacedAttribute.parsed ∧
      attributesOf (trim (l.flatMap SpacedAttribute.text)) = l.map SpacedAttribute.parsed := by
  cases l with
  | nil =>
    have hnone : attributesOf [] = [] := by
      rw [attributesOf, Recogniser.split_of_first?_eq_none rfl]
      rfl
    exact ⟨hnone, hnone⟩
  | cons x l =>
    have hparsed := map_ofText fun y hy => SpacedAttribute.plain_of_mem hy h
    have hwhole : (x :: l).flatMap SpacedAttribute.text =
        x.blanks ++ (x.written ++ l.flatMap SpacedAttribute.text) := by
      simp [SpacedAttribute.text]
    have hsplit := split_attributeTexts (l := l) x.isAttribute x.blank (hwhole ▸ h)
    have htrim := split_attributeTexts (b := []) (l := l) x.isAttribute (by simp)
      (h.of_isInfix ⟨x.blanks, [], by simp [SpacedAttribute.text]⟩)
    rw [trim_attributes h, ← hparsed]
    constructor
    · rw [attributesOf, hwhole, hsplit]
      simp
    · rw [List.nil_append] at htrim
      rw [attributesOf, htrim]
      simp

end ErbLayout.Markup
