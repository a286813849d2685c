import ErbLayout.Proofs.Markup.Rereading
import ErbLayout.Proofs.Text.Squeeze

/-!
Markup whose blanks are squeezed. With plain blanks alone, squeezing an attribute list squeezes the
blanks before each attribute and the values of the attributes and keeps the list apart from that.
-/

namespace ErbLayout.Markup

open Text

def Attribute.squeezed (a : Attribute) : Attribute := { a with value := a.value.map squeeze }

theorem Attribute.isUnquoted_squeezed (a : Attribute) : a.squeezed.IsUnquoted ↔ a.IsUnquoted := by
  cases a with
  | mk name value quote => cases value <;> simp [Attribute.squeezed, IsUnquoted]

theorem hasPlainBlanks_squeeze (s : Text) : HasPlainBlanks (squeeze s) := by
  intro c hc hblank
  rcases mem_squeeze hc with rfl | ⟨-, hnot⟩
  · decide
  · rw [hnot] at hblank
    simp at hblank

theorem IsAttributeName.squeeze_append {name : Text} (h : IsAttributeName name)
    (hplain : HasPlainBlanks name) (t : Text) :
    squeeze (name ++ '=' :: t) = name ++ '=' :: squeeze t := by
  have hname : ∀ c ∈ name, isBlank c = false :=
    fun c hc => hplain.isBlank_eq_false hc (h.chars c hc)
  have hsign : isBlank '=' = false := by decide
  rw [Text.squeeze_append (Or.inr (by rwa [startsBlank_cons])), squeeze_eq_self hname,
    squeeze_cons_of_notBlank hsign]

theorem squeeze_quoted {name value : Text} {q : Char} {quote : Quote} (hname : IsAttributeName name)
    (hplain : HasPlainBlanks name) (hquote : quote ≠ .bare) (hq : quote.written = [q]) :
    squeeze (name ++ '=' :: q :: (value ++ [q])) = name ++ '=' :: q :: (squeeze value ++ [q]) := by
  have hblank : isBlank q = false := by rcases quote_cases hquote hq
    with ⟨-, rfl⟩ | ⟨-, rfl⟩ <;> decide
  rw [hname.squeeze_append hplain, squeeze_cons_of_notBlank hblank,
    squeeze_append (Or.inr (by rwa [startsBlank_cons])), squeeze_cons_of_notBlank hblank]
  rfl

/-- An attribute squeezed is an attribute with its value squeezed. -/
theorem IsAttribute.squeeze {s : Text} {a : Attribute} (h : IsAttribute s a)
    (hs : HasPlainBlanks s) :
    IsAttribute (squeeze s) a.squeezed := by
  cases h with
  | name hname =>
    have hself : Text.squeeze s = s := squeeze_eq_self fun c hc =>
      hs.isBlank_eq_false hc (hname.chars c hc)
    rw [hself]
    exact .name hname
  | @quoted name value q quote hname hquote hq hvalue =>
    have hname' : HasPlainBlanks name := hs.of_isInfix (List.prefix_append _ _).isInfix
    rw [squeeze_quoted hname hname' hquote hq]
    refine .quoted hname hquote hq fun hmem => ?_
    rcases mem_squeeze hmem with rfl | ⟨hmem, -⟩
    · rcases quote_cases hquote hq with ⟨-, hspace⟩ | ⟨-, hspace⟩ <;>
        exact absurd hspace (by decide)
    · exact hvalue hmem
  | @bare name value hname hne hvalue =>
    have hname' : HasPlainBlanks name := hs.of_isInfix (List.prefix_append _ _).isInfix
    have hself : Text.squeeze value = value :=
      squeeze_eq_self fun c hc => isBlank_eq_false_of_isBareValueChar (hvalue c hc)
    have hsame : (⟨name, some value, .bare⟩ : Attribute).squeezed = ⟨name, some value, .bare⟩ := by
      simp [Attribute.squeezed, hself]
    rw [hname.squeeze_append hname', hself, hsame]
    exact .bare hname hne hvalue

theorem SpacedAttribute.ends_text (x : SpacedAttribute) (hx : HasPlainBlanks x.text) :
    startsBlank x.written = false ∧ endsBlank x.text = false := by
  obtain ⟨⟨c, u, hfirst, hc⟩, v, d, hlast, hd⟩ :=
    x.isAttribute.ends (hx.of_isInfix (List.suffix_append _ _).isInfix)
  constructor
  · rw [hfirst]
    exact hc
  · rw [SpacedAttribute.text, hlast, ← List.append_assoc, endsBlank_concat]
    exact hd

theorem squeeze_flatMap {l : List SpacedAttribute}
    (h : HasPlainBlanks (l.flatMap SpacedAttribute.text)) :
    squeeze (l.flatMap SpacedAttribute.text) = l.flatMap fun x => ' ' :: squeeze x.written := by
  induction l with
  | nil => rfl
  | cons x l ih =>
    have hx : HasPlainBlanks x.text := h.of_isInfix ⟨[], l.flatMap SpacedAttribute.text, by simp⟩
    obtain ⟨hstart, hend⟩ := x.ends_text hx
    have hsqueeze : squeeze x.text = ' ' :: squeeze x.written := by
      rw [SpacedAttribute.text, squeeze_append (Or.inr hstart), squeeze_blanks x.ne_nil x.blank]
      rfl
    rw [List.flatMap_cons, squeeze_append (Or.inl hend), hsqueeze,
      ih (h.of_isInfix ⟨x.text, [], by simp⟩), List.flatMap_cons]

/-- An attribute list squeezed is a list of the attributes with their values squeezed. -/
theorem exists_squeezed {l : List SpacedAttribute}
    (h : HasPlainBlanks (l.flatMap SpacedAttribute.text)) :
    ∃ l' : List SpacedAttribute, l'.flatMap SpacedAttribute.text =
      squeeze (l.flatMap SpacedAttribute.text) ∧
      l'.map SpacedAttribute.parsed = l.map fun x => x.parsed.squeezed := by
  rw [squeeze_flatMap h]
  induction l with
  | nil => exact ⟨[], rfl, rfl⟩
  | cons x l ih =>
    obtain ⟨l', htext, hparsed⟩ := ih (h.of_isInfix ⟨x.text, [], by simp⟩)
    have hspace : ∀ c ∈ [' '], isBlank c := by simp; decide
    refine ⟨⟨[' '], squeeze x.written, x.parsed.squeezed, List.cons_ne_nil _ _, hspace,
      x.isAttribute.squeeze (SpacedAttribute.plain_of_mem List.mem_cons_self h)⟩ :: l', ?_, ?_⟩
    · rw [List.flatMap_cons, List.flatMap_cons, htext]
      rfl
    · rw [List.map_cons, List.map_cons, hparsed]

/-- The trimmed list with its blanks collapsed, after a space, is the list squeezed. -/
theorem cons_collapse_trim {x : SpacedAttribute} {l : List SpacedAttribute}
    (h : HasPlainBlanks ((x :: l).flatMap SpacedAttribute.text)) :
    ' ' :: collapse (trim ((x :: l).flatMap SpacedAttribute.text)) =
      squeeze ((x :: l).flatMap SpacedAttribute.text) := by
  have hx : HasPlainBlanks x.text := h.of_isInfix ⟨[], l.flatMap SpacedAttribute.text, by simp⟩
  have hrest : HasPlainBlanks (x.written ++ l.flatMap SpacedAttribute.text) :=
    h.of_isInfix ⟨x.blanks, [], by simp [SpacedAttribute.text]⟩
  obtain ⟨⟨c, u, hfirst, hc⟩, -⟩ :=
    x.isAttribute.ends (hx.of_isInfix (List.suffix_append _ _).isInfix)
  obtain ⟨v, d, hlast, hd⟩ := exists_append_flatMap_eq x.isAttribute hrest
  have hstart : startsBlank (x.written ++ l.flatMap SpacedAttribute.text) = false := by
    rw [hfirst]
    exact hc
  have hend : endsBlank (x.written ++ l.flatMap SpacedAttribute.text) = false := by
    rw [hlast, endsBlank_concat]
    exact hd
  have hsqueeze := squeeze_eq_collapse hend
  rw [if_neg (by simp [hstart]), List.nil_append] at hsqueeze
  rw [trim_attributes h, ← hsqueeze, List.flatMap_cons, SpacedAttribute.text, List.append_assoc,
    squeeze_append (Or.inr hstart), squeeze_blanks x.ne_nil x.blank]
  rfl

end ErbLayout.Markup
