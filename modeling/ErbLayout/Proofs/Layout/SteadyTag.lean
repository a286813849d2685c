import ErbLayout.Proofs.Code.Delimiters
import ErbLayout.Proofs.Layout.TagWidth

/-!
Opening tags that are laid out twice. Whether a tag is put on one line is decided on its attributes
as they are written, and these are not written the second time as they were the first: values come
to stand in quotes, blanks next to quotes go or come, and a slash may become part of the last value.
A tag is steady when none of this makes a difference, and the tags that are laid out the second time
as they were the first are exactly the steady ones.
-/

namespace ErbLayout.Layout

open Text Markup Code

/-- The tag closes itself, and once it is laid out its last value takes in the slash. -/
def TakesSlash (style : AttributeStyle) (measure : Text → Nat) (name attributes : Text)
    (ending : Ending) (depth : Nat) : Prop :=
  ending = .slash ∧ KeepsLine style measure name (trim attributes) ending.written depth ∧
    ∃ a ∈ (attributesOf attributes).getLast?, a.IsUnquoted

/-- The tag is broken into lines the second time exactly when it was the first time. -/
def FitsAgain (style : AttributeStyle) (measure : Text → Nat) (name attributes : Text)
    (ending : Ending) (depth : Nat) : Prop :=
  measure (collapsedTag name (formatAttributes style measure name (trim attributes)
    ending.written depth)
      ending.written) ≤ available style.lineWidth depth ↔
    measure (collapsedTag name attributes ending.written) ≤ available style.lineWidth depth

/-- If the tag is broken into lines, no list of tokens without quotes is too long for its line. -/
def HasShortLists (style : AttributeStyle) (measure : Text → Nat) (name attributes : Text)
    (ending : Ending) (depth : Nat) : Prop :=
  available style.lineWidth depth < measure (collapsedTag name attributes ending.written) →
    ∀ a ∈ attributesOf attributes, a.IsUnquoted → a.name ∈ tokenListNames →
      measure (renderAttribute none a) ≤ available style.lineWidth (depth + 1)

/-- Nothing that decides the layout of the tag is changed by it. -/
structure IsSteady (style : AttributeStyle) (measure : Text → Nat) (name attributes : Text)
    (ending : Ending) (depth : Nat) : Prop where
  fits : FitsAgain style measure name attributes ending depth
  lists : HasShortLists style measure name attributes ending depth
  slash : TakesSlash style measure name attributes ending depth → isVoidElement name

theorem collapse_trim (s : Text) : collapse (trim s) = collapse s := by
  rw [collapse, collapse, trim, words_trimEnd, words_trimStart]

theorem isSteady_iff {style : AttributeStyle} {measure : Text → Nat} {name attributes : Text}
    {ending : Ending} {depth : Nat} :
    IsSteady style measure name attributes ending depth ↔
      (FitsAgain style measure name attributes ending depth ∧
        HasShortLists style measure name attributes ending depth) ∧
        (TakesSlash style measure name attributes ending depth → isVoidElement name) :=
  ⟨fun h => ⟨⟨h.fits, h.lists⟩, h.slash⟩, fun h => ⟨h.1.1, h.1.2, h.2⟩⟩

section Decidable

variable (style : AttributeStyle) (measure : Text → Nat) (name attributes : Text) (ending : Ending)
  (depth : Nat)

instance : Decidable (TakesSlash style measure name attributes ending depth) :=
  inferInstanceAs (Decidable (_ ∧ _ ∧ ∃ a ∈ (attributesOf attributes).getLast?, a.IsUnquoted))

instance : Decidable (FitsAgain style measure name attributes ending depth) :=
  inferInstanceAs (Decidable (_ ↔ _))

instance : Decidable (HasShortLists style measure name attributes ending depth) :=
  inferInstanceAs (Decidable (_ → _))

instance : Decidable (IsSteady style measure name attributes ending depth) :=
  decidable_of_iff _ isSteady_iff.symm

end Decidable

/-- What is measured of a tag, to tell whether it is steady, are its attributes as they are written
and as they are laid out, on one line, and each attribute. -/
theorem isSteady_congr {style : AttributeStyle} {measure measure' : Text → Nat}
    {name attributes : Text} {ending : Ending} {depth : Nat}
    (hlaid : formatAttributes style measure' name (trim attributes) ending.written depth =
      formatAttributes style measure name (trim attributes) ending.written depth)
    (hfirst : measure' (collapsedTag name attributes ending.written) =
      measure (collapsedTag name attributes ending.written))
    (hsecond : measure' (collapsedTag name
        (formatAttributes style measure name (trim attributes) ending.written depth)
        ending.written) =
      measure (collapsedTag name
        (formatAttributes style measure name (trim attributes) ending.written depth)
        ending.written))
    (hlines : ∀ a ∈ attributesOf attributes, measure' (renderAttribute none a) =
      measure (renderAttribute none a)) :
    IsSteady style measure' name attributes ending depth ↔
      IsSteady style measure name attributes ending depth := by
  have hfits : FitsAgain style measure' name attributes ending depth ↔
      FitsAgain style measure name attributes ending depth := by
    rw [FitsAgain, FitsAgain, hlaid, hfirst, hsecond]
  have hlists : HasShortLists style measure' name attributes ending depth ↔
      HasShortLists style measure name attributes ending depth := by
    rw [HasShortLists, HasShortLists, hfirst]
    refine imp_congr_right fun _ => forall₂_congr fun a ha => ?_
    rw [hlines a ha]
  have hslash : TakesSlash style measure' name attributes ending depth ↔
      TakesSlash style measure name attributes ending depth := by
    rw [collapsedTag] at hfirst
    rw [TakesSlash, TakesSlash, keepsLine_iff, keepsLine_iff, collapse_trim, hfirst]
  rw [isSteady_iff, isSteady_iff, hfits, hlists, hslash]

section Parts

/-- The opening delimiter of code tags occurs in an attribute if it does in its name or in its
value. -/
theorem holdsOpening_attribute {s : Text} {a : Attribute} (h : IsAttribute s a) :
    holdsOpening s = (holdsOpening a.name || holdsOpening (a.value.getD [])) := by
  cases h with
  | name hname => exact (Bool.or_false _).symm
  | @quoted name value q quote hname hquote hq hvalue =>
    have hmark : q ≠ '<' ∧ q ≠ '%' := by rcases quote_cases hquote hq
      with ⟨-, rfl⟩ | ⟨-, rfl⟩ <;> decide
    have hstart := holdsOpening_append_cons [] hmark.1 hmark.2 (value ++ [q])
    have hend := holdsOpening_append_cons value hmark.1 hmark.2 []
    rw [List.nil_append] at hstart
    rw [holdsOpening_append_cons name (by decide) (by decide), hstart, hend]
    simp [holdsOpening]
  | bare hname hne hvalue => exact holdsOpening_append_cons _ (by decide) (by decide) _

variable {a b : Attribute}

theorem LaidAs.written_quote {ranking : Option Ranking} (h : LaidAs ranking a b) :
    b.quote.written = a.quote.written := by
  rw [h.quote]
  split
  next hbare => rw [hbare.2]; rfl
  next => rfl

theorem LaidAs.renderAttribute_eq (h : LaidAs none a b) {s : Text} (ha : IsAttribute s a) :
    renderAttribute none b = renderAttribute none a := by
  have hquote := h.written_quote
  have htokens : tokensOf none b = tokensOf none a := h.tokens
  have hquoted := h.not_isUnquoted
  obtain ⟨name', value', quote'⟩ := b
  obtain rfl : name' = a.name := h.name
  have hvalue := h.value
  cases ha with
  | name hname =>
    obtain rfl : value' = none := by simpa using hvalue
    rfl
  | @quoted name value q quote hname hne hq hnot =>
    obtain ⟨v, rfl⟩ := Option.isSome_iff_exists.mp hvalue
    have hne' : quote' ≠ .bare := fun hbare => hquoted ⟨rfl, hbare⟩
    dsimp only at hquote
    simp [renderAttribute, hne, hne', htokens, hquote]
  | @bare name value hname hne hchars =>
    obtain ⟨v, rfl⟩ := Option.isSome_iff_exists.mp hvalue
    have hne' : quote' ≠ .bare := fun hbare => hquoted ⟨rfl, hbare⟩
    have hvisible : ∀ c ∈ value, isBlank c = false :=
      fun c hc => isBlank_eq_false_of_isBareValueChar (hchars c hc)
    rw [tokensOf_of_notBlank none name .bare hne hvisible] at htokens
    dsimp only at hquote
    simp [renderAttribute, hne', htokens, hquote, join]

theorem LaidAs.brokenAttribute_eq (h : LaidAs none a b) {style : AttributeStyle}
    (hstyle : style.ranking = none) (measure : Text → Nat) (depth : Nat) :
    brokenAttribute style measure depth b = brokenAttribute style measure depth a := by
  have htokens : tokensOf none b = tokensOf none a := h.tokens
  unfold brokenAttribute
  rw [hstyle, htokens, h.name, h.written_quote]

/-- An attribute that is laid out is a list of tokens if it was one or would have been one in
quotes. -/
theorem LaidAs.isTokenList_iff {ranking : Option Ranking} (h : LaidAs ranking a b) :
    b.isTokenList ↔ a.isTokenList ∨ a.IsUnquoted ∧ a.name ∈ tokenListNames := by
  have hquote : b.quote ≠ .bare ↔ a.quote ≠ .bare ∨ a.IsUnquoted := by
    rw [h.quote]
    split
    next hbare => simp [hbare]
    next hbare => simp [hbare]
  simp only [Attribute.isTokenList, Bool.and_eq_true, bne_iff_ne, List.contains_iff_mem, h.name,
    ne_eq] at hquote ⊢
  rw [hquote, or_and_right]

end Parts

section Lists

/-- The attribute is a list of tokens without quotes that is too long for its line. It is broken
into lines only when it is laid out a second time, in quotes. -/
def BreaksLater (style : AttributeStyle) (measure : Text → Nat) (depth : Nat) (a : Attribute) :
    Prop :=
  a.IsUnquoted ∧ a.name ∈ tokenListNames ∧ available style.lineWidth depth <
    measure (renderAttribute none a)

variable {style : AttributeStyle} (hstyle : style.ranking = none) (measure : Text → Nat)
  (depth : Nat)

theorem count_onNewLine (depth : Nat) (s : Text) :
    (onNewLine depth s).count '\n' = 1 + (trim s).count '\n' := by
  simp [onNewLine, indentation, List.count_replicate, Nat.add_comm]

include hstyle

theorem count_lt_brokenAttribute {s : Text} {a : Attribute} (ha : IsAttribute s a)
    (hs : HasPlainBlanks s) (hbare : a.IsUnquoted) :
    (onNewLine depth (renderAttribute none a)).count '\n' <
      (brokenAttribute style measure depth a).count '\n' := by
  cases ha with
  | name => simp [Attribute.IsUnquoted] at hbare
  | quoted hname hquote => exact absurd hbare.2 hquote
  | @bare name value hname hne hvalue =>
    have hvisible : ∀ c ∈ value, isBlank c = false :=
      fun c hc => isBlank_eq_false_of_isBareValueChar (hvalue c hc)
    have hline : '\n' ∉ renderAttribute none ⟨name, some value, .bare⟩ := by
      have hname' : '\n' ∉ name := fun hmem => by
        have hblank := hs.isBlank_eq_false (List.mem_append_left _ hmem) (hname.chars _ hmem)
        exact absurd hblank (by decide)
      have hvalue' : '\n' ∉ value := fun hmem => absurd (hvisible _ hmem) (by decide)
      simp [renderAttribute, Quote.written, hname', hvalue']
    have htrim : '\n' ∉ trim (renderAttribute none ⟨name, some value, .bare⟩) :=
      fun hmem => hline ((trim_isInfix _).subset hmem)
    have htokens := tokensOf_of_notBlank none name .bare hne hvisible
    have hpack : ∀ room, pack measure room room 0 [value] = [value] := by
      intro room
      simp [pack, packFrom, hne]
    rw [count_onNewLine, List.count_eq_zero_of_not_mem htrim, brokenAttribute, hstyle, htokens,
      hpack, ite_self]
    simp only [List.count_append, count_onNewLine, List.flatMap_cons]
    omega

/-- An attribute is laid out the second time as it was the first, or it is broken into lines. -/
theorem LaidAs.laidAttribute_cases {s : Text} {a b : Attribute} (h : LaidAs none a b)
    (ha : IsAttribute s a) (hs : HasPlainBlanks s) :
    (¬ BreaksLater style measure depth a ∧ laidAttribute style measure depth b =
      laidAttribute style measure depth a) ∨
      (BreaksLater style measure depth a ∧ (laidAttribute style measure depth a).count '\n' <
        (laidAttribute style measure depth b).count '\n') := by
  have hlist := h.isTokenList_iff
  rw [laidAttribute, laidAttribute, hstyle, h.renderAttribute_eq ha, h.brokenAttribute_eq hstyle]
  by_cases hbreaks : BreaksLater style measure depth a
  · refine Or.inr ⟨hbreaks, ?_⟩
    obtain ⟨hbare, hname, hwide⟩ := hbreaks
    have hnot : a.isTokenList = false := by simp [Attribute.isTokenList, hbare.2]
    have hsome : b.isTokenList = true := hlist.mpr (Or.inr ⟨hbare, hname⟩)
    simp only [hnot, hsome, hwide, decide_true, Bool.and_true, Bool.false_eq_true,
      if_false, if_true]
    exact count_lt_brokenAttribute hstyle measure depth ha hs hbare
  · refine Or.inl ⟨hbreaks, ?_⟩
    have hsame : (b.isTokenList &&
      decide (available style.lineWidth depth < measure (renderAttribute none a))) =
        (a.isTokenList && decide (available style.lineWidth depth <
          measure (renderAttribute none a))) := by
      rw [Bool.eq_iff_iff, Bool.and_eq_true, Bool.and_eq_true, hlist]
      constructor
      · rintro ⟨hlist | ⟨hbare, hname⟩, hwide⟩
        · exact ⟨hlist, hwide⟩
        · exact absurd ⟨hbare, hname, of_decide_eq_true hwide⟩ hbreaks
      · rintro ⟨hlist, hwide⟩
        exact ⟨Or.inl hlist, hwide⟩
    rw [hsame]

/-- Attributes on lines of their own are laid out the second time as they were the first exactly
when none is broken into lines only then. -/
theorem flatMap_laidAttribute_eq_iff {l m : List SpacedAttribute}
    (h : List.Forall₂ (fun x y => LaidAs none x.parsed y.parsed) l m)
    (hl : ∀ x ∈ l, HasPlainBlanks x.written) :
    (m.map SpacedAttribute.parsed).flatMap (laidAttribute style measure depth) =
        (l.map SpacedAttribute.parsed).flatMap (laidAttribute style measure depth) ↔
      ∀ x ∈ l, ¬ BreaksLater style measure depth x.parsed := by
  -- line feeds are only added, and some are where an attribute is broken
  have hcases : ((∀ x ∈ l, ¬ BreaksLater style measure depth x.parsed) ∧
      (m.map SpacedAttribute.parsed).flatMap (laidAttribute style measure depth) =
        (l.map SpacedAttribute.parsed).flatMap (laidAttribute style measure depth)) ∨
      ((∃ x ∈ l, BreaksLater style measure depth x.parsed) ∧
        ((l.map SpacedAttribute.parsed).flatMap (laidAttribute style measure depth)).count '\n' <
          ((m.map SpacedAttribute.parsed).flatMap (laidAttribute style measure depth)).count
          '\n') := by
    induction h with
    | nil => exact Or.inl ⟨by simp, rfl⟩
    | @cons x y l m hxy _ ih =>
      have hfirst := hxy.laidAttribute_cases hstyle measure depth x.isAttribute
        (hl x List.mem_cons_self)
      have hrest := ih fun z hz => hl z (List.mem_cons_of_mem x hz)
      simp only [List.map_cons, List.flatMap_cons, List.count_append, List.mem_cons,
        forall_eq_or_imp, exists_eq_or_imp]
      rcases hfirst with ⟨hbreaks, hsame⟩ | ⟨hbreaks, hmore⟩ <;>
        rcases hrest with ⟨hnone, heq⟩ | ⟨hsome, hlt⟩
      · exact Or.inl ⟨⟨hbreaks, hnone⟩, by rw [hsame, heq]⟩
      · exact Or.inr ⟨Or.inr hsome, by rw [hsame]; omega⟩
      · exact Or.inr ⟨Or.inl hbreaks, by rw [heq]; omega⟩
      · exact Or.inr ⟨Or.inl hbreaks, by omega⟩
  rcases hcases with ⟨hnone, heq⟩ | ⟨⟨x, hx, hbreaks⟩, hlt⟩
  · exact iff_of_true heq hnone
  · refine iff_of_false (fun heq => ?_) fun hnone => hnone x hx hbreaks
    rw [heq] at hlt
    exact Nat.lt_irrefl _ hlt

end Lists

section Again

/-- Attributes begin with a space on the line of the tag, and with a line feed otherwise. -/
theorem head?_formatAttributes (style : AttributeStyle) (measure : Text → Nat) (name ending : Text)
    (depth : Nat) {x : SpacedAttribute} {l : List SpacedAttribute}
    (hplain : HasPlainBlanks ((x :: l).flatMap SpacedAttribute.text)) :
    (formatAttributes style measure name (trim ((x :: l).flatMap SpacedAttribute.text)) ending
      depth).head? =
      if measure (collapsedTag name ((x :: l).flatMap SpacedAttribute.text) ending) ≤
        available style.lineWidth depth
      then some ' ' else some '\n' := by
  have hvisible := allBlank_trim_attributes hplain
  have hparsed := (attributesOf_flatMap hplain).2
  rw [collapsedTag, ← collapse_trim]
  split
  next hfits =>
    rw [formatAttributes_of_narrow hvisible hfits, hparsed]
    split <;> rfl
  next hwide =>
    rw [formatAttributes_of_wide hvisible (Nat.not_le.mp hwide), hparsed, List.map_cons,
      List.flatMap_cons, laidAttribute]
    split <;> rfl

variable {style : AttributeStyle} {measure : Text → Nat} {name : Text} {ending : Ending}
  {depth : Nat}

theorem flatMap_renderAttribute_eq {l m : List SpacedAttribute}
    (h : List.Forall₂ (fun x y => LaidAs none x.parsed y.parsed) l m) :
    ((m.map SpacedAttribute.parsed).flatMap fun a => ' ' :: renderAttribute none a) =
      (l.map SpacedAttribute.parsed).flatMap fun a => ' ' :: renderAttribute none a := by
  induction h with
  | nil => rfl
  | @cons x y l m hxy _ ih =>
    simp only [List.map_cons, List.flatMap_cons, ih, hxy.renderAttribute_eq x.isAttribute]

/-- A tag with a class has it again once it is laid out, so its attributes are not kept as they are
written. -/
theorem not_keepsLine_of_laidAs (hstyle : style.ranking = none) {l m : List SpacedAttribute}
    (hl : HasPlainBlanks (l.flatMap SpacedAttribute.text))
    (hm : HasPlainBlanks (m.flatMap SpacedAttribute.text))
    (h : List.Forall₂ (fun x y => LaidAs none x.parsed y.parsed) l m) {e : Text}
    (hfits : measure
      ('<' :: (name ++ ' ' :: (collapse (trim (l.flatMap SpacedAttribute.text)) ++ e))) ≤
      available style.lineWidth depth)
    (hkeeps : ¬ KeepsLine style measure name (trim (l.flatMap SpacedAttribute.text)) e depth) :
    ¬ KeepsLine style measure name (trim (m.flatMap SpacedAttribute.text)) e depth := by
  intro hkept
  apply hkeeps
  refine ⟨hfits, by rw [hstyle]; rfl, fun a ha hclass => ?_⟩
  rw [(attributesOf_flatMap hl).2] at ha
  obtain ⟨x, hx, rfl⟩ := List.mem_map.mp ha
  obtain ⟨y, hy, hxy⟩ := exists_of_mem_forall₂ h.flip hx
  refine hkept.noClass y.parsed ?_ (hxy.name.trans hclass)
  rw [(attributesOf_flatMap hm).2]
  exact List.mem_map_of_mem hy

section Anew

variable {l m : List SpacedAttribute} (hstyle : style.ranking = none)
  (hl : HasPlainBlanks (l.flatMap SpacedAttribute.text))
  (hm : HasPlainBlanks (m.flatMap SpacedAttribute.text))
  (h : List.Forall₂ (fun x y => LaidAs none x.parsed y.parsed) l m)
include hstyle hl hm h

/-- Attributes that are on one line both times, and were put out anew, are put out the same. -/
theorem formatAttributes_again_of_narrow (hne : l ≠ []) {e : Text}
    (hkeeps : ¬ KeepsLine style measure name (trim (l.flatMap SpacedAttribute.text)) e depth)
    (hfits : measure (collapsedTag name (l.flatMap SpacedAttribute.text) e) ≤
      available style.lineWidth depth)
    (hfits' : measure (collapsedTag name (m.flatMap SpacedAttribute.text) e) ≤
      available style.lineWidth depth) :
    formatAttributes style measure name (trim (m.flatMap SpacedAttribute.text)) e depth =
      formatAttributes style measure name (trim (l.flatMap SpacedAttribute.text)) e depth := by
  rw [collapsedTag, ← collapse_trim] at hfits hfits'
  have hnot := not_keepsLine_of_laidAs hstyle hl hm h hfits hkeeps
  cases h with
  | nil => exact absurd rfl hne
  | cons hxy hrest =>
    rw [formatAttributes_of_narrow (allBlank_trim_attributes hl) hfits,
      formatAttributes_of_narrow (allBlank_trim_attributes hm) hfits', if_neg hkeeps, if_neg hnot,
      (attributesOf_flatMap hl).2, (attributesOf_flatMap hm).2, hstyle,
        flatMap_renderAttribute_eq (.cons hxy hrest)]

/-- Attributes that are on lines of their own both times are put out the same when no list of tokens
is broken only the second time. -/
theorem formatAttributes_again_iff_of_wide (hne : l ≠ []) {e : Text}
    (hwide : available style.lineWidth depth <
      measure (collapsedTag name (l.flatMap SpacedAttribute.text) e))
    (hwide' : available style.lineWidth depth <
      measure (collapsedTag name (m.flatMap SpacedAttribute.text) e)) :
    formatAttributes style measure name (trim (m.flatMap SpacedAttribute.text)) e depth =
        formatAttributes style measure name (trim (l.flatMap SpacedAttribute.text)) e depth ↔
      ∀ a ∈ attributesOf (l.flatMap SpacedAttribute.text), a.IsUnquoted → a.name ∈ tokenListNames →
        measure (renderAttribute none a) ≤ available style.lineWidth (depth + 1) := by
  have hlists := flatMap_laidAttribute_eq_iff hstyle measure (depth + 1) h fun z hz =>
    SpacedAttribute.plain_of_mem hz hl
  rw [collapsedTag, ← collapse_trim] at hwide hwide'
  cases h with
  | nil => exact absurd rfl hne
  | cons hxy hrest =>
    rw [formatAttributes_of_wide (allBlank_trim_attributes hl) hwide,
      formatAttributes_of_wide (allBlank_trim_attributes hm) hwide', (attributesOf_flatMap hl).2,
      (attributesOf_flatMap hm).2, List.append_left_inj, hlists, (attributesOf_flatMap hl).1]
    constructor
    · intro hbreaks a ha hbare hname
      obtain ⟨z, hz, rfl⟩ := List.mem_map.mp ha
      exact Nat.not_lt.mp fun hlong => hbreaks z hz ⟨hbare, hname, hlong⟩
    · rintro hshort z hz ⟨hbare, hname, hlong⟩
      exact Nat.not_lt.mpr (hshort z.parsed (List.mem_map_of_mem hz) hbare hname) hlong

/-- Attributes that were not kept as they are written are laid out the second time as they were the
first exactly when the tag fits again and no list of tokens is broken only then. -/
theorem formatAttributes_again_iff {gap : Text} (hgap : ∀ c ∈ gap, c ∈ plainBlanks)
    (hlaid : formatAttributes style measure name (trim (l.flatMap SpacedAttribute.text))
      ending.written depth = m.flatMap SpacedAttribute.text ++ gap)
    (hkeeps : ¬ KeepsLine style measure name (trim (l.flatMap SpacedAttribute.text))
      ending.written depth) :
    formatAttributes style measure name (trim (m.flatMap SpacedAttribute.text))
      ending.written depth =
        m.flatMap SpacedAttribute.text ++ gap ↔
      FitsAgain style measure name (l.flatMap SpacedAttribute.text) ending depth ∧
        HasShortLists style measure name (l.flatMap SpacedAttribute.text) ending depth := by
  have hcollapse : collapse (m.flatMap SpacedAttribute.text ++ gap) =
      collapse (m.flatMap SpacedAttribute.text) := by
    rw [collapse, collapse, words_append_blank _ fun c hc => isBlank_of_mem_plainBlanks (hgap c hc)]
  rw [FitsAgain, HasShortLists, hlaid, collapsedTag, hcollapse]
  change _ ↔
    (measure (collapsedTag name (m.flatMap SpacedAttribute.text) ending.written) ≤ _ ↔ _) ∧ _
  cases h with
  | nil =>
    have hnil : gap = [] := by simpa [formatAttributes, allBlank, trim, trimStart, trimEnd]
      using hlaid.symm
    have hnone : attributesOf ([].flatMap SpacedAttribute.text) = [] := (attributesOf_flatMap hl).1
    rw [hnil, hnone]
    exact iff_of_true rfl ⟨Iff.rfl, by simp⟩
  | @cons x y l m hxy hrest =>
    have hall : List.Forall₂ (fun x y => LaidAs none x.parsed y.parsed) (x :: l) (y :: m) :=
      .cons hxy hrest
    have hhead := head?_formatAttributes style measure name ending.written depth hl
    have hhead' := head?_formatAttributes style measure name ending.written depth hm
    rw [hlaid] at hhead
    by_cases hfits : measure (collapsedTag name ((x :: l).flatMap SpacedAttribute.text)
      ending.written) ≤
        available style.lineWidth depth <;>
      by_cases hfits' : measure (collapsedTag name ((y :: m).flatMap SpacedAttribute.text)
        ending.written) ≤ available style.lineWidth depth
    · -- on one line both times, each attribute put out anew
      refine iff_of_true ?_ ⟨iff_of_true hfits' hfits, fun hwide =>
        absurd hfits (Nat.not_le.mpr hwide)⟩
      rw [← hlaid]
      exact formatAttributes_again_of_narrow hstyle hl hm hall (List.cons_ne_nil x l) hkeeps
        hfits hfits'
    · -- on one line the first time only
      refine iff_of_false (fun heq => ?_) fun hagain => hfits' (hagain.1.mpr hfits)
      rw [heq, hhead, if_pos hfits, if_neg hfits'] at hhead'
      simp at hhead'
    · -- on one line the second time only
      refine iff_of_false (fun heq => ?_) fun hagain => hfits (hagain.1.mp hfits')
      rw [heq, hhead, if_neg hfits, if_pos hfits'] at hhead'
      simp at hhead'
    · -- on lines of their own both times
      have hwide := Nat.not_le.mp hfits
      rw [← hlaid, formatAttributes_again_iff_of_wide hstyle hl hm hall (List.cons_ne_nil x l) hwide
        (Nat.not_le.mp hfits')]
      exact ⟨fun hshort => ⟨iff_of_false hfits' hfits, fun _ => hshort⟩, fun hagain =>
        hagain.2 hwide⟩

end Anew

/-- The attributes `m` with `gap` and the end `ending'` after them are what is read of the
attributes `l` once they are laid out. -/
structure RelaidAttributes (style : AttributeStyle) (measure : Text → Nat) (name : Text)
    (ending : Ending) (depth : Nat) (l m : List SpacedAttribute) (gap : Text) (ending' : Ending) :
    Prop where
  written : formatAttributes style measure name (trim (l.flatMap SpacedAttribute.text))
    ending.written depth ++
    ending.written = m.flatMap SpacedAttribute.text ++ (gap ++ ending'.written)
  plain : HasPlainBlanks (m.flatMap SpacedAttribute.text)
  blanks : ∀ c ∈ gap, c ∈ plainBlanks
  quoted : ending' = .slash → ∀ y ∈ m.getLast?, ¬ y.parsed.IsUnquoted
  empty : m = [] ↔ l = []
  taken : TakesSlash style measure name (l.flatMap SpacedAttribute.text) ending depth →
    ending' = .plain
  kept : ¬ TakesSlash style measure name (l.flatMap SpacedAttribute.text) ending depth →
    ending' = ending
  opening : holdsOpening (m.flatMap SpacedAttribute.text ++ gap) =
    holdsOpening (l.flatMap SpacedAttribute.text)
  again : formatAttributes style measure name (trim (m.flatMap SpacedAttribute.text))
    ending'.written depth =
      m.flatMap SpacedAttribute.text ++ gap ↔
    FitsAgain style measure name (l.flatMap SpacedAttribute.text) ending depth ∧
      HasShortLists style measure name (l.flatMap SpacedAttribute.text) ending depth

/-- Blanks stand before each attribute, so an opening delimiter occurs in attributes if it does in
one. -/
theorem holdsOpening_attributes_cons (x : SpacedAttribute) (l : List SpacedAttribute) :
    holdsOpening ((x :: l).flatMap SpacedAttribute.text) =
      (holdsOpening x.written || holdsOpening (l.flatMap SpacedAttribute.text)) := by
  have hcut : (l.flatMap SpacedAttribute.text).head? ≠ some '%' := by
    cases l with
    | nil => simp
    | cons y l =>
      obtain ⟨c, b, hb⟩ := List.exists_cons_of_ne_nil y.ne_nil
      have hc : isBlank c := y.blank c (by simp [hb])
      have hne : c ≠ '%' := by
        rintro rfl
        revert hc
        decide
      simpa [SpacedAttribute.text, hb] using hne
  have hwritten := holdsOpening_append_blank_append
    [] x.ne_nil x.blank (x.written ++ l.flatMap SpacedAttribute.text)
  rw [holdsOpening_append (Or.inr hcut)] at hwritten
  rw [List.flatMap_cons, SpacedAttribute.text, List.append_assoc]
  exact hwritten

theorem holdsOpening_of_laidAs {l m : List SpacedAttribute}
    (h : List.Forall₂ (fun x y => LaidAs none x.parsed y.parsed) l m) :
    holdsOpening (m.flatMap SpacedAttribute.text) =
      holdsOpening (l.flatMap SpacedAttribute.text) := by
  induction h with
  | nil => rfl
  | @cons x y l m hxy _ ih =>
    rw [holdsOpening_attributes_cons, holdsOpening_attributes_cons, ih,
      holdsOpening_attribute x.isAttribute, holdsOpening_attribute y.isAttribute, hxy.name,
      holdsOpening_congr hxy.tokens]

/-- Attributes that stay on the line of the tag are measured the second time as they were the
first. -/
theorem KeepsLine.again {l : List SpacedAttribute}
    (hkeeps : KeepsLine style measure name (trim (l.flatMap SpacedAttribute.text)) ending.written
      depth) (hlaid : formatAttributes style measure name (trim (l.flatMap SpacedAttribute.text))
      ending.written depth = squeeze (l.flatMap SpacedAttribute.text)) :
    FitsAgain style measure name (l.flatMap SpacedAttribute.text) ending depth ∧
      HasShortLists style measure name (l.flatMap SpacedAttribute.text) ending depth := by
  have hfits := hkeeps.fits
  rw [collapse_trim] at hfits
  refine ⟨?_, fun hwide => absurd hfits (Nat.not_le.mpr hwide)⟩
  rw [FitsAgain, hlaid, collapsedTag, collapse, words_squeeze]
  exact Iff.rfl

/-- Attributes that stay on the line of the tag do so with a slash after them, if this is part of
the last value. -/
theorem KeepsLine.append_slash {l m : List SpacedAttribute}
    (hl : HasPlainBlanks (l.flatMap SpacedAttribute.text)) (hne : l ≠ [])
    (hm : HasPlainBlanks (m.flatMap SpacedAttribute.text))
    (htext : m.flatMap SpacedAttribute.text = squeeze (l.flatMap SpacedAttribute.text) ++ ['/'])
    (hnames : (m.map fun y => y.parsed.name) = l.map fun y => y.parsed.name)
    (hkeeps : KeepsLine style measure name (trim (l.flatMap SpacedAttribute.text))
      Ending.slash.written depth) :
    KeepsLine style measure name (trim (m.flatMap SpacedAttribute.text)) Ending.plain.written
      depth := by
  obtain ⟨x, l, rfl⟩ := List.exists_cons_of_ne_nil hne
  obtain ⟨y, m, rfl⟩ : ∃ y m', m = y :: m' := by
    cases m with
    | nil => simp at hnames
    | cons y m => exact ⟨y, m, rfl⟩
  have hcollapse : collapse (trim ((y :: m).flatMap SpacedAttribute.text)) =
      collapse (trim ((x :: l).flatMap SpacedAttribute.text)) ++ ['/'] := by
    have hcons : ' ' :: collapse (trim ((y :: m).flatMap SpacedAttribute.text)) =
        ' ' :: (collapse (trim ((x :: l).flatMap SpacedAttribute.text)) ++ ['/']) := by
      rw [cons_collapse_trim hm, ← List.cons_append, cons_collapse_trim hl, htext,
        squeeze_append (Or.inr rfl), squeeze_squeeze]
      rfl
    exact (List.cons.inj hcons).2
  refine ⟨?_, hkeeps.unranked, ?_⟩
  · have hfits := hkeeps.fits
    rw [hcollapse, List.append_assoc]
    exact hfits
  · intro a ha
    rw [(attributesOf_flatMap hm).2] at ha
    have hmem : a.name ∈ (y :: m).map fun y => y.parsed.name := by
      obtain ⟨z, hz, rfl⟩ := List.mem_map.mp ha
      exact List.mem_map_of_mem hz
    rw [hnames] at hmem
    obtain ⟨z, hz, hname⟩ := List.mem_map.mp hmem
    rw [← hname]
    apply hkeeps.noClass
    rw [(attributesOf_flatMap hl).2]
    exact List.mem_map_of_mem hz

section Relaid

variable {l m : List SpacedAttribute} (hl : HasPlainBlanks (l.flatMap SpacedAttribute.text))
include hl

theorem takesSlash_iff (hkeeps : KeepsLine style measure name
      (trim (l.flatMap SpacedAttribute.text)) ending.written depth) :
    TakesSlash style measure name (l.flatMap SpacedAttribute.text) ending depth ↔
      ending = .slash ∧ ∃ x ∈ l.getLast?, x.parsed.IsUnquoted := by
  have hlast : (∃ a ∈ (attributesOf (l.flatMap SpacedAttribute.text)).getLast?, a.IsUnquoted) ↔
      ∃ x ∈ l.getLast?, x.parsed.IsUnquoted := by
    rw [(attributesOf_flatMap hl).1, List.getLast?_map]
    cases l.getLast? <;> simp
  rw [TakesSlash, hlast]
  exact and_congr_right fun _ => and_iff_right hkeeps

/-- Attributes that stay on the line, and whose last value takes in the slash, are read as
attributes with it. -/
theorem exists_relaidAttributes_slash
    (hkeeps : KeepsLine style measure name (trim (l.flatMap SpacedAttribute.text))
      Ending.slash.written depth)
    (hlaid : formatAttributes style measure name (trim (l.flatMap SpacedAttribute.text))
      Ending.slash.written depth = squeeze (l.flatMap SpacedAttribute.text))
    (htext : m.flatMap SpacedAttribute.text = squeeze (l.flatMap SpacedAttribute.text))
    (hparsed : m.map SpacedAttribute.parsed = l.map fun x => x.parsed.squeezed)
    (htakes : TakesSlash style measure name (l.flatMap SpacedAttribute.text) .slash depth)
    {y : SpacedAttribute} (hy : y ∈ m.getLast?) (hunquoted : y.parsed.IsUnquoted) :
    ∃ m', RelaidAttributes style measure name .slash depth l m' [] .plain := by
  obtain ⟨m', htext', hm', hnames⟩ :=
    exists_attributes_slash (htext ▸ hasPlainBlanks_squeeze _) hy hunquoted
  rw [htext] at htext'
  have hnames' : (m'.map fun y => y.parsed.name) = l.map fun y => y.parsed.name := by
    have hsqueezed := congrArg (List.map Attribute.name) hparsed
    rw [List.map_map, List.map_map] at hsqueezed
    exact hnames.trans hsqueezed
  have hne : l ≠ [] := by
    rintro rfl
    obtain rfl : m = [] := by simpa using hparsed
    simp at hy
  have hkeeps' := hkeeps.append_slash hl hne hm' htext' hnames'
  have hlaid' : formatAttributes style measure name (trim (m'.flatMap SpacedAttribute.text))
    Ending.plain.written depth =
      m'.flatMap SpacedAttribute.text := by
    rcases formatAttributes_laidAs hm' style measure name Ending.plain.written depth
      with ⟨-, hlaid'⟩ | ⟨hnot, -⟩
    · rw [hlaid', htext', squeeze_append (Or.inr rfl), squeeze_squeeze]
      rfl
    · exact absurd hkeeps' hnot
  refine ⟨m', ?_, hm', by simp, by simp, ?_, fun _ => rfl, fun hnot => absurd htakes hnot, ?_, ?_⟩
  · rw [hlaid, htext']
    simp [Ending.written]
  · have hlength := congrArg List.length hnames'
    rw [List.length_map, List.length_map] at hlength
    rw [← List.length_eq_zero_iff, hlength, List.length_eq_zero_iff]
  · rw [List.append_nil, htext', holdsOpening_append_cons _ (by decide) (by decide),
      holdsOpening_congr (words_squeeze _)]
    simp [holdsOpening]
  · rw [hlaid', List.append_nil]
    exact iff_of_true rfl (hkeeps.again hlaid)

/-- Attributes that stay on the line are read as they are with their blanks squeezed, up to a
slash. -/
theorem exists_relaidAttributes_of_keepsLine
    (hkeeps : KeepsLine style measure name (trim (l.flatMap SpacedAttribute.text)) ending.written
      depth) (hlaid : formatAttributes style measure name (trim (l.flatMap SpacedAttribute.text))
      ending.written depth = squeeze (l.flatMap SpacedAttribute.text)) :
    ∃ m ending', RelaidAttributes style measure name ending depth l m [] ending' := by
  obtain ⟨m, htext, hparsed⟩ := exists_squeezed hl
  have hlast : (∃ y ∈ m.getLast?, y.parsed.IsUnquoted) ↔ ∃ x ∈ l.getLast?, x.parsed.IsUnquoted := by
    have hparts := congrArg List.getLast? hparsed
    rw [List.getLast?_map, List.getLast?_map] at hparts
    cases hl : l.getLast? <;> cases hm : m.getLast? <;> rw [hl, hm] at hparts <;> simp at hparts ⊢
    rw [hparts, Attribute.isUnquoted_squeezed]
  by_cases htakes : TakesSlash style measure name (l.flatMap SpacedAttribute.text) ending depth
  · obtain ⟨rfl, hunquoted⟩ := (takesSlash_iff hl hkeeps).mp htakes
    obtain ⟨y, hy, hyu⟩ := hlast.mpr hunquoted
    obtain ⟨m', hrelaid⟩ := exists_relaidAttributes_slash hl hkeeps hlaid htext hparsed
      htakes hy hyu
    exact ⟨m', .plain, hrelaid⟩
  · refine ⟨m, ending, ?_, htext ▸ hasPlainBlanks_squeeze _, by simp, ?_, ?_, fun htakes' =>
      absurd htakes' htakes, fun _ => rfl, ?_, ?_⟩
    · rw [hlaid, htext]
      rfl
    · intro hslash y hy hyu
      exact htakes ((takesSlash_iff hl hkeeps).mpr ⟨hslash, hlast.mp ⟨y, hy, hyu⟩⟩)
    · have hlength := congrArg List.length hparsed
      rw [List.length_map, List.length_map] at hlength
      rw [← List.length_eq_zero_iff, hlength, List.length_eq_zero_iff]
    · rw [List.append_nil, htext, holdsOpening_congr (words_squeeze _)]
    · rw [htext, formatAttributes_squeeze hl, hlaid, List.append_nil]
      exact iff_of_true rfl (hkeeps.again hlaid)

/-- Attributes, once they are laid out, are read as a list of attributes again. -/
theorem exists_relaidAttributes (hstyle : style.ranking = none) (measure : Text → Nat) (name : Text)
    (ending : Ending) (depth : Nat) :
    ∃ m gap ending', RelaidAttributes style measure name ending depth l m gap ending' := by
  rcases formatAttributes_laidAs hl style measure name ending.written depth with
    ⟨hkeeps, hlaid⟩ | ⟨hkeeps, m, gap, hlaid, hm, hgap, hall⟩
  · obtain ⟨m, ending', hrelaid⟩ := exists_relaidAttributes_of_keepsLine hl hkeeps hlaid
    exact ⟨m, [], ending', hrelaid⟩
  · rw [hstyle] at hall
    have htakes : ¬ TakesSlash style measure name (l.flatMap SpacedAttribute.text) ending depth :=
      fun htakes => hkeeps htakes.2.1
    have hblank : ∀ c ∈ gap, isBlank c := fun c hc => isBlank_of_mem_plainBlanks (hgap c hc)
    refine ⟨m, gap, ending, ?_, hm, hgap, ?_, ?_, fun htakes' => absurd htakes' htakes,
      fun _ => rfl, ?_, formatAttributes_again_iff hstyle hl hm hall hgap hlaid hkeeps⟩
    · rw [hlaid, List.append_assoc]
    · intro _ y hy
      obtain ⟨x, -, hxy⟩ := exists_of_mem_forall₂ hall (List.mem_of_mem_getLast? hy)
      exact hxy.not_isUnquoted
    · rw [← List.length_eq_zero_iff, ← hall.length_eq, List.length_eq_zero_iff]
    · rw [holdsOpening_congr (words_append_blank _ hblank), holdsOpening_of_laidAs hall]

end Relaid

end Again

end ErbLayout.Layout
