import ErbLayout.Proofs.Layout.SteadyTag

/-!
Tags with settled attributes. An attribute is settled when it has no value, or a value in quotes
with no blank next to them. A tag whose attributes are settled is steady: on one line they are what
they are with their blanks squeezed, and a value broken into lines has a blank after its first
quote, so the tag takes no fewer columns than before and is broken again.
-/

namespace ErbLayout.Markup

open Text

def Attribute.IsSettled (a : Attribute) : Prop :=
  ∀ v ∈ a.value, a.quote ≠ .bare ∧ startsBlank v = false ∧ endsBlank v = false

instance (a : Attribute) : Decidable a.IsSettled :=
  inferInstanceAs (Decidable (∀ v ∈ a.value, a.quote ≠ .bare ∧ startsBlank v = false ∧
    endsBlank v = false))

theorem Attribute.IsSettled.not_isUnquoted {a : Attribute} (h : a.IsSettled) : ¬ a.IsUnquoted := by
  rintro ⟨hvalue, hbare⟩
  obtain ⟨v, hv⟩ := Option.isSome_iff_exists.mp hvalue
  exact (h v hv).1 hbare

end ErbLayout.Markup

namespace ErbLayout.Layout

open Text Markup Code

/-- A space after a quotation mark takes columns, if anything. -/
def GrowsAtQuotes (measure : Text → Nat) : Prop :=
  ∀ u q v, q = '"' ∨ q = '\'' → measure (u ++ q :: v) ≤ measure (u ++ q :: ' ' :: v)

/-- The texts are the same, or the second has a space after a quotation mark that the first has
not. -/
def Widened (s t : Text) : Prop :=
  s = t ∨ ∃ u q v, (q = '"' ∨ q = '\'') ∧ s = u ++ q :: v ∧ t = u ++ q :: ' ' :: v

theorem GrowsAtQuotes.le_of_widened {measure : Text → Nat} (h : GrowsAtQuotes measure) {s t : Text}
    (hst : Widened s t) (u v : Text) : measure (u ++ (s ++ v)) ≤ measure (u ++ (t ++ v)) := by
  rcases hst with rfl | ⟨x, q, y, hq, rfl, rfl⟩
  · exact Nat.le_refl _
  · simpa using h (u ++ x) q (y ++ v) hq

theorem GrowsAtQuotes.flatMap_le {measure : Text → Nat} (h : GrowsAtQuotes measure)
    {l m : List SpacedAttribute}
    (hlm : List.Forall₂ (fun x y => Widened (squeeze x.written) (squeeze y.written)) l m)
    (u v : Text) :
    measure (u ++ (l.flatMap (fun x => ' ' :: squeeze x.written) ++ v)) ≤
      measure (u ++ (m.flatMap (fun x => ' ' :: squeeze x.written) ++ v)) := by
  induction hlm generalizing u with
  | nil => exact Nat.le_refl _
  | @cons x y l m hxy _ ih =>
    have hfirst := h.le_of_widened hxy (u ++ [' '])
      (l.flatMap (fun x => ' ' :: squeeze x.written) ++ v)
    have hrest := ih (u ++ ' ' :: squeeze y.written)
    simp only [List.flatMap_cons, List.append_assoc, List.cons_append, List.nil_append]
      at hfirst hrest ⊢
    exact Nat.le_trans hfirst hrest

/-- A settled attribute on one line is the attribute squeezed. -/
theorem renderAttribute_eq_squeeze {s : Text} {a : Attribute} (h : IsAttribute s a)
    (hs : HasPlainBlanks s) (ha : a.IsSettled) : renderAttribute none a = squeeze s := by
  cases h with
  | name hname => exact (squeeze_eq_self fun c hc => hs.isBlank_eq_false hc (hname.chars c hc)).symm
  | @quoted name value q quote hname hquote hq hvalue =>
    obtain ⟨-, hstart, hend⟩ := ha value rfl
    have hname' : HasPlainBlanks name := hs.of_isInfix (List.prefix_append _ _).isInfix
    rw [squeeze_quoted hname hname' hquote hq, squeeze_eq_collapse hend, hstart]
    simp [renderAttribute, hquote, hq, tokensOf, collapse]
  | bare => exact absurd rfl (ha _ rfl).1

theorem formatAttributes_of_fits {x : SpacedAttribute} {l : List SpacedAttribute}
    (hplain : HasPlainBlanks ((x :: l).flatMap SpacedAttribute.text))
    (hsettled : ∀ y ∈ x :: l, y.parsed.IsSettled) {style : AttributeStyle}
    (hstyle : style.ranking = none) {measure : Text → Nat} {name ending : Text} {depth : Nat}
    (hfits : measure
      ('<' :: (name ++ ' ' :: (collapse (trim ((x :: l).flatMap SpacedAttribute.text)) ++ ending)))
      ≤ available style.lineWidth depth) :
    formatAttributes style measure name (trim ((x :: l).flatMap SpacedAttribute.text))
      ending depth = squeeze ((x :: l).flatMap SpacedAttribute.text) := by
  have hlines : ((x :: l).map SpacedAttribute.parsed).flatMap
    (fun a => ' ' :: renderAttribute none a) =
      squeeze ((x :: l).flatMap SpacedAttribute.text) := by
    rw [squeeze_flatMap hplain, List.flatMap_map]
    apply List.flatMap_congr
    intro y hy
    rw [renderAttribute_eq_squeeze y.isAttribute (SpacedAttribute.plain_of_mem hy hplain)
      (hsettled y hy)]
  unfold formatAttributes
  rw [allBlank_trim_attributes hplain]
  simp only [hfits, hstyle, Bool.false_eq_true, if_false]
  split
  · exact cons_collapse_trim hplain
  · rw [(attributesOf_flatMap hplain).2, if_pos (by simp)]
    exact hlines

/-- Plain blanks and an attribute after them that is written as `x`, in no fewer columns. -/
structure Relists (x y : SpacedAttribute) : Prop where
  plain : HasPlainBlanks y.text
  widened : Widened (squeeze x.written) (squeeze y.written)

theorem exists_spaced_onNewLine (depth : Nat) {t : Text} {a : Attribute} (h : IsAttribute t a)
    (hplain : HasPlainBlanks t) :
    ∃ y : SpacedAttribute, y.text = onNewLine depth [] ++ t ∧ y.written = t ∧
      HasPlainBlanks y.text := by
  refine ⟨⟨onNewLine depth [], t, a, List.cons_ne_nil _ _,
    fun c hc => isBlank_of_mem_plainBlanks (mem_plainBlanks_onNewLine_nil hc), h⟩, rfl, rfl, ?_⟩
  intro c hc hblank
  rcases List.mem_append.mp hc with hc | hc
  · exact mem_plainBlanks_onNewLine_nil hc
  · exact hplain c hc hblank

theorem exists_relists_line (depth : Nat) {x : SpacedAttribute} (hx : HasPlainBlanks x.written)
    (hsettled : x.parsed.IsSettled) :
    ∃ y, y.text = onNewLine depth (renderAttribute none x.parsed) ∧ Relists x y := by
  have hread := x.isAttribute.squeeze hx
  obtain ⟨y, htext, hwritten, hplain⟩ :=
    exists_spaced_onNewLine depth hread (hasPlainBlanks_squeeze _)
  refine ⟨y, ?_, hplain, ?_⟩
  · rw [htext, renderAttribute_eq_squeeze x.isAttribute hx hsettled,
      onNewLine_eq_append depth (squeeze x.written),
      trim_attribute hread (hasPlainBlanks_squeeze _)]
  · rw [hwritten]
    exact Or.inl (squeeze_squeeze _).symm

theorem flatMap_words_words (s : Text) : (words s).flatMap words = words s := by
  have hword : ∀ w ∈ words s, words w = [w] := fun w hw =>
    words_of_notBlank (of_mem_words hw).1 fun c hc => ((of_mem_words hw).2 c hc).2
  rw [List.flatMap_congr hword]
  simp

/-- The value of an attribute on lines keeps its words; there is a blank before them and none
after. -/
theorem squeeze_flatMap_onNewLine (depth : Nat) {lines : List Text} {value : Text}
    (hwords : lines.flatMap words = words value) (hlines : ∀ line ∈ lines, IsVisible line) :
    squeeze (lines.flatMap (onNewLine depth)) =
      if lines = [] then [] else ' ' :: join [' '] (words value) := by
  split
  next hnil => rw [hnil]; rfl
  next hne =>
    have hlaid : laidLines depth true lines = lines.flatMap (onNewLine depth) := by
      obtain ⟨line, rest, rfl⟩ := List.exists_cons_of_ne_nil hne
      simp [laidLines]
    rw [← hlaid, squeeze_eq_words, startsBlank_laidLines depth true hne hlines,
      endsBlank_laidLines depth true hlines, words_laidLines, hwords]
    simp

theorem exists_relists_broken {style : AttributeStyle} (hstyle : style.ranking = none)
    (measure : Text → Nat) (depth : Nat) {x : SpacedAttribute} (hx : HasPlainBlanks x.written)
    (hsettled : x.parsed.IsSettled) (hlist : x.parsed.isTokenList) :
    ∃ y, y.text = brokenAttribute style measure depth x.parsed ∧ Relists x y := by
  obtain ⟨blanks, written, parsed, hne, hblanks, hread⟩ := x
  dsimp only at hx hsettled hlist
  cases hread with
  | name => simp [Attribute.isTokenList] at hlist
  | bare => simp [Attribute.isTokenList] at hlist
  | @quoted name value q quote hname hquote hq hvalue =>
    obtain ⟨-, hstart, hend⟩ := hsettled value rfl
    have hname' : HasPlainBlanks name := hx.of_isInfix (List.prefix_append _ _).isInfix
    have htokens : ∀ w ∈ words value, w ≠ [] := fun w hw => (of_mem_words hw).1
    -- the lines, whichever way the tokens are put on them
    obtain ⟨lines, hbroken, hwords, hvisible, hchars⟩ : ∃ lines : List Text,
        brokenAttribute style measure depth ⟨name, some value, quote⟩ =
          onNewLine depth (name ++ '=' :: quote.written) ++ lines.flatMap (onNewLine (depth + 1)) ++
          quote.written ∧
        lines.flatMap words = words value ∧ (∀ line ∈ lines, IsVisible line) ∧
        ∀ line ∈ lines, ∀ c ∈ line, c ∈ value ∨ c ∈ plainBlanks := by
      have hword : ∀ w ∈ words value, ∀ c ∈ w, c ∈ value :=
        fun w hw c hc => ((of_mem_words hw).2 c hc).1
      unfold brokenAttribute
      rw [hstyle]
      dsimp only [tokensOf, Option.getD_some]
      split
      · obtain ⟨hwords, hvisible⟩ := packed_words measure (available style.lineWidth (depth + 1))
          (available style.lineWidth (depth + 1)) 0 value
        refine ⟨_, rfl, hwords, hvisible, fun line hline c hc => ?_⟩
        rcases mem_of_mem_pack htokens hline hc with rfl | ⟨w, hw, hc⟩
        · exact Or.inr (by decide)
        · exact Or.inl (hword w hw c hc)
      · exact ⟨_, rfl, flatMap_words_words value, fun line => isVisible_of_mem_words,
          fun line hline c hc => Or.inl (hword line hline c hc)⟩
    have hvalue' : ∀ c ∈ lines.flatMap (onNewLine (depth + 1)), c ∈ value ∨ c ∈ plainBlanks := by
      intro c hc
      rcases mem_flatMap_onNewLine hc with hc | ⟨line, hline, hc⟩
      · exact Or.inr hc
      · exact hchars line hline c hc
    obtain ⟨hattribute, hplain⟩ := isAttribute_quoted hname hx hquote hq hvalue hvalue'
    obtain ⟨y, htext, hwritten, hplain⟩ := exists_spaced_onNewLine depth hattribute hplain
    refine ⟨y, ?_, hplain, ?_⟩
    · rw [htext, hbroken, onNewLine_quoted_append depth hname hname' hquote hq]
    · rw [hwritten, squeeze_quoted hname hname' hquote hq, squeeze_quoted hname hname' hquote hq,
        squeeze_flatMap_onNewLine (depth + 1) hwords hvisible, squeeze_eq_collapse hend, hstart,
        if_neg Bool.false_ne_true, List.nil_append]
      split
      next hnil =>
        have hnone : words value = [] := by rw [← hwords, hnil]; rfl
        exact Or.inl (by simp [collapse, hnone, join])
      next =>
        refine Or.inr ⟨name ++ ['='], q, collapse value ++ [q], ?_, by simp, by simp [collapse]⟩
        rcases quote_cases hquote hq with ⟨-, rfl⟩ | ⟨-, rfl⟩
        · exact Or.inr rfl
        · exact Or.inl rfl

theorem exists_relists {style : AttributeStyle} (hstyle : style.ranking = none)
    (measure : Text → Nat) (depth : Nat) {x : SpacedAttribute} (hx : HasPlainBlanks x.written)
    (hsettled : x.parsed.IsSettled) :
    ∃ y, y.text = laidAttribute style measure depth x.parsed ∧ Relists x y := by
  unfold laidAttribute
  split
  next hbreak =>
    obtain ⟨hlist, -⟩ := Bool.and_eq_true_iff.mp hbreak
    exact exists_relists_broken hstyle measure depth hx hsettled hlist
  next =>
    rw [hstyle]
    exact exists_relists_line depth hx hsettled

theorem exists_forall₂_relists {style : AttributeStyle} (hstyle : style.ranking = none)
    (measure : Text → Nat) (depth : Nat) {l : List SpacedAttribute}
    (hl : ∀ x ∈ l, HasPlainBlanks x.written) (hsettled : ∀ x ∈ l, x.parsed.IsSettled) :
    ∃ m : List SpacedAttribute, List.Forall₂ Relists l m ∧
      m.flatMap SpacedAttribute.text =
        (l.map SpacedAttribute.parsed).flatMap (laidAttribute style measure depth) := by
  induction l with
  | nil => exact ⟨[], .nil, rfl⟩
  | cons x l ih =>
    obtain ⟨m, hm, hmtext⟩ := ih (fun y hy => hl y (List.mem_cons_of_mem x hy))
      fun y hy => hsettled y (List.mem_cons_of_mem x hy)
    obtain ⟨y, hytext, hy⟩ := exists_relists hstyle measure depth (hl x List.mem_cons_self)
      (hsettled x List.mem_cons_self)
    exact ⟨y :: m, .cons hy hm, by simp [hytext, hmtext]⟩

theorem Relists.hasPlainBlanks_flatMap {l m : List SpacedAttribute} (h : List.Forall₂ Relists l m) :
    HasPlainBlanks (m.flatMap SpacedAttribute.text) := by
  induction h with
  | nil => simp [HasPlainBlanks]
  | cons hxy _ ih =>
    intro c hc
    rcases List.mem_append.mp hc with hc | hc
    · exact hxy.plain c hc
    · exact ih c hc

section Steady

variable {l : List SpacedAttribute} (hplain : HasPlainBlanks (l.flatMap SpacedAttribute.text))
  {measure : Text → Nat} (hmeasure : GrowsAtQuotes measure)
include hplain hmeasure

/-- Attributes on one line take no fewer columns when they are read again after they were laid
out. -/
theorem measure_collapsedTag_le {m : List SpacedAttribute} (h : List.Forall₂ Relists l m)
    (name ending : Text) :
    measure (collapsedTag name (l.flatMap SpacedAttribute.text) ending) ≤
      measure (collapsedTag name (m.flatMap SpacedAttribute.text) ending) := by
  have hplain' := Relists.hasPlainBlanks_flatMap h
  have hle := hmeasure.flatMap_le (h.imp fun _ _ hxy => hxy.widened) ('<' :: name) ending
  rw [← squeeze_flatMap hplain, ← squeeze_flatMap hplain'] at hle
  cases h with
  | nil => exact Nat.le_refl _
  | cons =>
    rw [← cons_collapse_trim hplain, ← cons_collapse_trim hplain', collapse_trim,
      collapse_trim] at hle
    exact hle

theorem fitsAgain_of_isSettled (hsettled : ∀ x ∈ l, x.parsed.IsSettled) {style : AttributeStyle}
    (hstyle : style.ranking = none) (name : Text) (ending : Ending) (depth : Nat) :
    FitsAgain style measure name (l.flatMap SpacedAttribute.text) ending depth := by
  have hwritten : ∀ x ∈ l, HasPlainBlanks x.written :=
    fun x hx => SpacedAttribute.plain_of_mem hx hplain
  have hcollapse := collapse_trim (l.flatMap SpacedAttribute.text)
  cases l with
  | nil => exact Iff.rfl
  | cons x l =>
    rcases Nat.lt_or_ge (available style.lineWidth depth)
        (measure (collapsedTag name ((x :: l).flatMap SpacedAttribute.text) ending.written))
        with hwide | hfits
    · -- each attribute on a line of its own; read again, they take no fewer columns
      obtain ⟨m, hm, htext⟩ := exists_forall₂_relists hstyle measure (depth + 1) hwritten hsettled
      have hlaid := formatAttributes_of_wide (allBlank_trim_attributes hplain)
        (hcollapse.symm ▸ hwide : available style.lineWidth depth < measure ('<' :: (name ++ ' ' ::
          (collapse (trim ((x :: l).flatMap SpacedAttribute.text)) ++ ending.written))))
      have hgap : ∀ c ∈ onNewLine depth [], isBlank c :=
        fun c hc => isBlank_of_mem_plainBlanks (mem_plainBlanks_onNewLine_nil hc)
      have hle := measure_collapsedTag_le hplain hmeasure hm name ending.written
      rw [FitsAgain, hlaid, (attributesOf_flatMap hplain).2, ← htext, collapsedTag, collapse,
        words_append_blank _ hgap]
      exact iff_of_false (Nat.not_le.mpr (Nat.lt_of_lt_of_le hwide hle)) (Nat.not_le.mpr hwide)
    · -- on one line the attributes are squeezed
      have hlaid := formatAttributes_of_fits hplain hsettled hstyle
        (hcollapse.symm ▸ hfits : measure ('<' :: (name ++ ' ' ::
          (collapse (trim ((x :: l).flatMap SpacedAttribute.text)) ++ ending.written))) ≤
          available style.lineWidth depth)
      rw [FitsAgain, hlaid, collapsedTag, collapse, words_squeeze]
      exact Iff.rfl

/-- A tag with settled attributes is steady. -/
theorem isSteady_of_isSettled (hsettled : ∀ x ∈ l, x.parsed.IsSettled) {style : AttributeStyle}
    (hstyle : style.ranking = none) (name : Text) (ending : Ending) (depth : Nat) :
    IsSteady style measure name (l.flatMap SpacedAttribute.text) ending depth := by
  have hquoted : ∀ a ∈ attributesOf (l.flatMap SpacedAttribute.text), ¬ a.IsUnquoted := by
    intro a ha
    rw [(attributesOf_flatMap hplain).1] at ha
    obtain ⟨x, hx, rfl⟩ := List.mem_map.mp ha
    exact (hsettled x hx).not_isUnquoted
  refine ⟨fitsAgain_of_isSettled hplain hmeasure hsettled hstyle name ending depth, ?_, ?_⟩
  · exact fun _ a ha hbare => absurd hbare (hquoted a ha)
  · rintro ⟨-, -, a, ha, hbare⟩
    exact absurd hbare (hquoted a (List.mem_of_getLast? ha))

end Steady

end ErbLayout.Layout
