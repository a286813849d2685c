import ErbLayout.Layout.Attributes
import ErbLayout.Proofs.Layout.Lines
import ErbLayout.Proofs.Markup.Squeeze
import ErbLayout.Proofs.Markup.Tiling

/-!
An opening tag read again once it is laid out. However its attributes are laid out, what stands
between its name and its end is again a list of attributes with plain blanks before them, and in all
ways but one every value is in quotes. The one way keeps the attributes as they are written and
drops the blanks before the end of the tag, so a last value without quotes takes in the slash of a
tag that closes itself. In all other cases the tag is read with the name and the end that it had.
-/

namespace ErbLayout.Layout

open Text Markup

def laidTag (style : AttributeStyle) (measure : Text → Nat) (name attributes : Text)
    (ending : Ending) (depth : Nat) : Text :=
  '<' :: (name ++ formatAttributes style measure name (trim attributes) ending.written depth ++
    ending.written)

/-- The attributes stay as they are written, on the line of the tag and with a space for every
stretch of blanks. -/
structure KeepsLine (style : AttributeStyle) (measure : Text → Nat) (name attributes ending : Text)
    (depth : Nat) : Prop where
  fits : measure ('<' :: (name ++ ' ' :: (collapse attributes ++ ending))) ≤
    available style.lineWidth depth
  unranked : style.ranking.isNone
  noClass : ∀ a ∈ attributesOf attributes, a.name ≠ className

theorem keepsLine_iff {style : AttributeStyle} {measure : Text → Nat}
    {name attributes ending : Text} {depth : Nat} :
    KeepsLine style measure name attributes ending depth ↔
      measure ('<' :: (name ++ ' ' :: (collapse attributes ++ ending))) ≤
        available style.lineWidth depth ∧
        style.ranking.isNone ∧ ∀ a ∈ attributesOf attributes, a.name ≠ className :=
  ⟨fun h => ⟨h.fits, h.unranked, h.noClass⟩, fun h => ⟨h.1, h.2.1, h.2.2⟩⟩

instance (style : AttributeStyle) (measure : Text → Nat) (name attributes ending : Text)
    (depth : Nat) :
    Decidable (KeepsLine style measure name attributes ending depth) :=
  decidable_of_iff _ keepsLine_iff.symm

def laidAttribute (style : AttributeStyle) (measure : Text → Nat) (depth : Nat) (a : Attribute) :
    Text :=
  if a.isTokenList && available style.lineWidth depth <
      measure (renderAttribute style.ranking a) then
    brokenAttribute style measure depth a
  else onNewLine depth (renderAttribute style.ranking a)

theorem formatAttributes_of_wide {style : AttributeStyle} {measure : Text → Nat}
    {name attributes ending : Text} {depth : Nat} (hvisible : allBlank attributes = false)
    (hwide : available style.lineWidth depth <
      measure ('<' :: (name ++ ' ' :: (collapse attributes ++ ending)))) :
    formatAttributes style measure name attributes ending depth =
      (attributesOf attributes).flatMap (laidAttribute style measure (depth + 1)) ++
        onNewLine depth [] := by
  have hfits : ¬ measure ('<' :: (name ++ ' ' :: (collapse attributes ++ ending))) ≤
      available style.lineWidth depth :=
    Nat.not_le.mpr hwide
  unfold formatAttributes
  simp only [hvisible, hfits, decide_false, Bool.false_and, Bool.false_eq_true, if_false]
  rfl

theorem formatAttributes_of_narrow {style : AttributeStyle} {measure : Text → Nat}
    {name attributes ending : Text} {depth : Nat} (hvisible : allBlank attributes = false)
    (hfits : measure ('<' :: (name ++ ' ' :: (collapse attributes ++ ending))) ≤
      available style.lineWidth depth) :
    formatAttributes style measure name attributes ending depth =
      if KeepsLine style measure name attributes ending depth then ' ' :: collapse attributes
      else (attributesOf attributes).flatMap fun a => ' ' :: renderAttribute style.ranking a := by
  unfold formatAttributes
  simp only [hvisible, hfits, keepsLine_iff, decide_true, Bool.true_and, true_and,
    Bool.false_eq_true, if_false]
  simp

theorem mem_plainBlanks_onNewLine_nil {depth : Nat} {c : Char} (h : c ∈ onNewLine depth []) :
    c ∈ plainBlanks := by
  have hline : c ∈ '\n' :: indentation depth := by
    simpa [onNewLine, trim, trimStart, trimEnd] using h
  exact mem_plainBlanks_of_mem_indentation hline

theorem onNewLine_eq_append (depth : Nat) (s : Text) :
    onNewLine depth s = onNewLine depth [] ++ trim s := by
  simp [onNewLine, trim, trimStart, trimEnd]

/-- A token of a value is not empty and holds characters of the value that are not blank. -/
theorem of_mem_tokensOf {ranking : Option Ranking} {a : Attribute} {w : Text}
    (h : w ∈ tokensOf ranking a) :
    w ≠ [] ∧ ∀ c ∈ w, c ∈ a.value.getD [] ∧ isBlank c = false := by
  apply of_mem_words
  unfold tokensOf at h
  cases ranking with
  | none => exact h
  | some ranking =>
    dsimp only at h
    split at h
    · exact List.mem_mergeSort.mp h
    · exact h

theorem tokensOf_noValue (ranking : Option Ranking) (name : Text) (quote : Quote) :
    tokensOf ranking ⟨name, none, quote⟩ = [] := by
  cases ranking with
  | none => rfl
  | some ranking => simp [tokensOf, words_nil, sortTokens]

/-- A value of one token has nothing to be put in order. -/
theorem tokensOf_of_notBlank (ranking : Option Ranking) (name : Text) {value : Text} (quote : Quote)
    (hne : value ≠ []) (hvalue : ∀ c ∈ value, isBlank c = false) :
    tokensOf ranking ⟨name, some value, quote⟩ = [value] := by
  cases ranking with
  | none => simp [tokensOf, words_of_notBlank hne hvalue]
  | some ranking => simp [tokensOf, words_of_notBlank hne hvalue, sortTokens]

/-- The attribute `b` is `a` laid out and read again, with its tokens in order and its value, if
there is one, in quotes. -/
structure LaidAs (ranking : Option Ranking) (a b : Attribute) : Prop where
  name : b.name = a.name
  value : b.value.isSome = a.value.isSome
  quote : b.quote = if a.IsUnquoted then .quotation else a.quote
  tokens : words (b.value.getD []) = tokensOf ranking a

theorem LaidAs.not_isUnquoted {ranking : Option Ranking} {a b : Attribute}
    (h : LaidAs ranking a b) :
    ¬ b.IsUnquoted := by
  rintro ⟨hvalue, hbare⟩
  rw [h.quote] at hbare
  split at hbare
  next => simp at hbare
  next hquoted => exact hquoted ⟨h.value ▸ hvalue, hbare⟩

/-- Plain blanks and after them the attribute laid out. -/
def IsUnitOf (ranking : Option Ranking) (a : Attribute) (t : Text) : Prop :=
  ∃ y : SpacedAttribute, y.text = t ∧ HasPlainBlanks t ∧ LaidAs ranking a y.parsed

theorem isUnitOf_append {ranking : Option Ranking} {a a' : Attribute} {b t : Text} (hne : b ≠ [])
    (hb : ∀ c ∈ b, c ∈ plainBlanks) (ht : IsAttribute t a') (hplain : HasPlainBlanks t)
    (hlaid : LaidAs ranking a a') :
    IsUnitOf ranking a (b ++ t) := by
  refine ⟨⟨b, t, a', hne, fun c hc => isBlank_of_mem_plainBlanks (hb c hc), ht⟩, rfl, ?_, hlaid⟩
  intro c hc hblank
  rcases List.mem_append.mp hc with hc | hc
  · exact hb c hc
  · exact hplain c hc hblank

/-- A value in quotes, made of characters of a value that was read and of plain blanks. -/
theorem isAttribute_quoted {name value : Text} {q : Char} {quote : Quote}
    (hname : IsAttributeName name) (hplain : HasPlainBlanks (name ++ '=' :: q :: (value ++ [q])))
    (hquote : quote ≠ .bare) (hq : quote.written = [q]) (hvalue : q ∉ value) {value' : Text}
    (hvalue' : ∀ c ∈ value', c ∈ value ∨ c ∈ plainBlanks) :
    IsAttribute (name ++ '=' :: q :: (value' ++ [q])) ⟨name, some value', quote⟩ ∧
      HasPlainBlanks (name ++ '=' :: q :: (value' ++ [q])) := by
  constructor
  · refine .quoted hname hquote hq fun hmem => ?_
    rcases hvalue' q hmem with hmem | hmem
    · exact hvalue hmem
    · rcases quote_cases hquote hq with ⟨-, rfl⟩ | ⟨-, rfl⟩ <;> exact absurd hmem (by decide)
  · intro c hc hblank
    have hmem : c ∈ name ++ '=' :: q :: (value ++ [q]) ∨ c ∈ plainBlanks := by
      have hcases : c ∈ name ∨ c = '=' ∨ c = q ∨ c ∈ value' ∨ c = q := by simpa using hc
      rcases hcases with hc | rfl | rfl | hc | rfl
      · exact Or.inl (by simp [hc])
      · exact Or.inl (by simp)
      · exact Or.inl (by simp)
      · exact (hvalue' c hc).imp (fun hc => by simp [hc]) id
      · exact Or.inl (by simp)
    exact hmem.elim (fun hc => hplain c hc hblank) id

/-- An attribute on one line is the attribute laid out. -/
theorem exists_isAttribute_renderAttribute (ranking : Option Ranking) {s : Text} {a : Attribute}
    (h : IsAttribute s a) (hs : HasPlainBlanks s) :
    ∃ a', IsAttribute (renderAttribute ranking a) a' ∧ HasPlainBlanks (renderAttribute ranking a) ∧
      LaidAs ranking a a' := by
  cases h with
  | name hname =>
    refine ⟨⟨s, none, .bare⟩, .name hname, hs, rfl, rfl, by simp [Attribute.IsUnquoted], ?_⟩
    rw [tokensOf_noValue]
    rfl
  | @quoted name value q quote hname hquote hq hvalue =>
    have hline : renderAttribute ranking ⟨name, some value, quote⟩ =
        name ++ '=' :: q :: (join [' '] (tokensOf ranking ⟨name, some value, quote⟩) ++ [q]) := by
      simp [renderAttribute, hquote, hq]
    have htokens : ∀ c ∈ join [' '] (tokensOf ranking ⟨name, some value, quote⟩), c ∈ value ∨
        c ∈ plainBlanks := by
      intro c hc
      rcases mem_join hc with hc | ⟨w, hw, hc⟩
      · obtain rfl : c = ' ' := by simpa using hc
        exact Or.inr (by decide)
      · exact Or.inl ((of_mem_tokensOf hw).2 c hc).1
    rw [hline]
    obtain ⟨hattribute, hplain⟩ := isAttribute_quoted hname hs hquote hq hvalue htokens
    refine ⟨_, hattribute, hplain, rfl, rfl, by simp [Attribute.IsUnquoted, hquote], ?_⟩
    exact words_join fun w hw =>
      ⟨(of_mem_tokensOf hw).1, fun c hc => ((of_mem_tokensOf hw).2 c hc).2⟩
  | @bare name value hname hne hvalue =>
    have hline : renderAttribute ranking ⟨name, some value, .bare⟩ = name ++ '=' :: '"' ::
        (value ++ ['"']) := by
      simp [renderAttribute, Quote.written]
    have hmark : '"' ∉ value := by
      intro hmem
      exact absurd (hvalue _ hmem) (by decide)
    have hvisible : ∀ c ∈ value, isBlank c = false :=
      fun c hc => isBlank_eq_false_of_isBareValueChar (hvalue c hc)
    rw [hline]
    refine ⟨⟨name, some value, .quotation⟩, .quoted hname (by simp) rfl hmark, ?_, rfl, rfl,
      by simp [Attribute.IsUnquoted], ?_⟩
    · intro c hc hblank
      have hcases : c ∈ name ++ '=' :: value ∨ c = '"' := by
        have hcases : c ∈ name ∨ c = '=' ∨ c = '"' ∨ c ∈ value ∨ c = '"' := by simpa using hc
        rcases hcases with hc | rfl | rfl | hc | rfl
        · exact Or.inl (by simp [hc])
        · exact Or.inl (by simp)
        · exact Or.inr rfl
        · exact Or.inl (by simp [hc])
        · exact Or.inr rfl
      rcases hcases with hc | rfl
      · exact hs c hc hblank
      · revert hblank
        decide
    · rw [tokensOf_of_notBlank ranking name .bare hne hvisible]
      exact words_of_notBlank hne hvisible

theorem isUnitOf_line (ranking : Option Ranking) {s : Text} {a : Attribute} (h : IsAttribute s a)
    (hs : HasPlainBlanks s) : IsUnitOf ranking a (' ' :: renderAttribute ranking a) := by
  obtain ⟨a', hattribute, hplain, hlaid⟩ := exists_isAttribute_renderAttribute ranking h hs
  exact isUnitOf_append (b := [' ']) (List.cons_ne_nil _ _)
    (by simp; decide) hattribute hplain hlaid

theorem trim_attribute {s : Text} {a : Attribute} (h : IsAttribute s a) (hs : HasPlainBlanks s) :
    trim s = s := by
  obtain ⟨⟨c, u, hfirst, hc⟩, v, d, hlast, hd⟩ := h.ends hs
  exact trim_append (b := []) (by simp) hfirst hlast hc hd

theorem isUnitOf_onNewLine (ranking : Option Ranking) (depth : Nat) {s : Text} {a : Attribute}
    (h : IsAttribute s a) (hs : HasPlainBlanks s) :
    IsUnitOf ranking a (onNewLine depth (renderAttribute ranking a)) := by
  obtain ⟨a', hattribute, hplain, hlaid⟩ := exists_isAttribute_renderAttribute ranking h hs
  rw [onNewLine_eq_append, trim_attribute hattribute hplain]
  exact isUnitOf_append (List.cons_ne_nil _ _)
    (fun c => mem_plainBlanks_onNewLine_nil) hattribute hplain hlaid

theorem onNewLine_quoted_append (depth : Nat) {name : Text} {q : Char} {quote : Quote}
    (hname : IsAttributeName name) (hplain : HasPlainBlanks name) (hquote : quote ≠ .bare)
    (hq : quote.written = [q]) (value : Text) :
    onNewLine depth (name ++ '=' :: quote.written) ++ value ++ quote.written =
      onNewLine depth [] ++ (name ++ '=' :: q :: (value ++ [q])) := by
  have htrim : trim (name ++ '=' :: quote.written) = name ++ '=' :: quote.written := by
    have hblank : isBlank q = false := by rcases quote_cases hquote hq
      with ⟨-, rfl⟩ | ⟨-, rfl⟩ <;> decide
    obtain ⟨d, name, rfl⟩ := List.exists_cons_of_ne_nil hname.ne_nil
    have hd : isBlank d = false := hplain.isBlank_eq_false (by simp)
      (hname.chars d List.mem_cons_self)
    rw [hq]
    exact trim_append (b := []) (u := name ++ '=' :: [q]) (v := d :: name ++ ['='])
      (by simp) rfl (by simp) hd hblank
  rw [onNewLine_eq_append, htrim, hq]
  simp

/-- A value broken into lines is the value of an attribute again, if the lines hold its tokens. -/
theorem isUnitOf_lines {ranking : Option Ranking} (depth : Nat) {name value : Text} {q : Char}
    {quote : Quote} (hname : IsAttributeName name)
    (hs : HasPlainBlanks (name ++ '=' :: q :: (value ++ [q]))) (hquote : quote ≠ .bare)
    (hq : quote.written = [q]) (hvalue : q ∉ value) {lines : List Text}
    (hlines : ∀ line ∈ lines, ∀ c ∈ line, c ∈ value ∨ c ∈ plainBlanks)
    (hwords : lines.flatMap words = tokensOf ranking ⟨name, some value, quote⟩) :
    IsUnitOf ranking ⟨name, some value, quote⟩ (onNewLine depth (name ++ '=' :: quote.written) ++
      lines.flatMap (onNewLine (depth + 1)) ++ quote.written) := by
  have hvalue' : ∀ c ∈ lines.flatMap (onNewLine (depth + 1)), c ∈ value ∨ c ∈ plainBlanks := by
    intro c hc
    rcases mem_flatMap_onNewLine hc with hc | ⟨line, hline, hc⟩
    · exact Or.inr hc
    · exact hlines line hline c hc
  obtain ⟨hattribute, hplain⟩ := isAttribute_quoted hname hs hquote hq hvalue hvalue'
  have hsame := words_append_flatMap_onNewLine (depth + 1) [] lines
  rw [words_nil, List.nil_append, List.nil_append, hwords] at hsame
  rw [onNewLine_quoted_append depth hname (hs.of_isInfix (List.prefix_append _ _).isInfix)
    hquote hq]
  exact isUnitOf_append (List.cons_ne_nil _ _)
    (fun c => mem_plainBlanks_onNewLine_nil) hattribute hplain
    ⟨rfl, rfl, by simp [Attribute.IsUnquoted, hquote], hsame⟩

theorem isUnitOf_brokenAttribute (style : AttributeStyle) (measure : Text → Nat) (depth : Nat)
    {s : Text} {a : Attribute} (h : IsAttribute s a) (hs : HasPlainBlanks s)
    (hlist : a.isTokenList) :
    IsUnitOf style.ranking a (brokenAttribute style measure depth a) := by
  cases h with
  | name => simp [Attribute.isTokenList] at hlist
  | bare => simp [Attribute.isTokenList] at hlist
  | @quoted name value q quote hname hquote hq hvalue =>
    have htokens : ∀ w ∈ tokensOf style.ranking ⟨name, some value, quote⟩, w ≠ [] ∧
        ∀ c ∈ w, isBlank c = false :=
      fun w hw => ⟨(of_mem_tokensOf hw).1, fun c hc => ((of_mem_tokensOf hw).2 c hc).2⟩
    have hchars : ∀ w ∈ tokensOf style.ranking ⟨name, some value, quote⟩, ∀ c ∈ w, c ∈ value ∨
        c ∈ plainBlanks :=
      fun w hw c hc => Or.inl ((of_mem_tokensOf hw).2 c hc).1
    apply isUnitOf_lines depth hname hs hquote hq hvalue
    · intro line hline c hc
      split at hline
      · rcases mem_of_mem_pack (fun w hw => (htokens w hw).1) hline hc with rfl | ⟨w, hw, hc⟩
        · exact Or.inr (by decide)
        · exact hchars w hw c hc
      · exact hchars line hline c hc
    · split
      · exact (packed_lines _ _ _ _ htokens).1
      · rw [List.flatMap_congr fun w hw => words_of_notBlank (htokens w hw).1 (htokens w hw).2]
        exact List.flatMap_singleton' _

/-- Attributes laid out one by one are a list of attributes again, each laid out. -/
theorem exists_of_isUnitOf (ranking : Option Ranking) (f : Attribute → Text)
    {l : List SpacedAttribute} (h : ∀ x ∈ l, IsUnitOf ranking x.parsed (f x.parsed)) :
    ∃ l' : List SpacedAttribute, (l.map SpacedAttribute.parsed).flatMap f =
      l'.flatMap SpacedAttribute.text ∧
      HasPlainBlanks (l'.flatMap SpacedAttribute.text) ∧
      List.Forall₂ (fun x y => LaidAs ranking x.parsed y.parsed) l l' := by
  induction l with
  | nil => exact ⟨[], rfl, by simp [HasPlainBlanks], .nil⟩
  | cons x l ih =>
    obtain ⟨l', htext, hplain, hlaid⟩ := ih fun y hy => h y (List.mem_cons_of_mem x hy)
    obtain ⟨y, hy, hplain', hlaid'⟩ := h x List.mem_cons_self
    refine ⟨y :: l', by simp [htext, hy], ?_, .cons hlaid' hlaid⟩
    intro c hc
    rcases List.mem_append.mp hc with hc | hc
    · exact hplain' c (hy ▸ hc)
    · exact hplain c hc

/-- The attributes stay as they are written, or each is laid out, perhaps with blanks after the
last. -/
theorem formatAttributes_laidAs {l : List SpacedAttribute}
    (hplain : HasPlainBlanks (l.flatMap SpacedAttribute.text)) (style : AttributeStyle)
    (measure : Text → Nat) (name ending : Text) (depth : Nat) :
    (KeepsLine style measure name (trim (l.flatMap SpacedAttribute.text)) ending depth ∧
      formatAttributes style measure name (trim (l.flatMap SpacedAttribute.text)) ending depth =
        squeeze (l.flatMap SpacedAttribute.text)) ∨
    (¬ KeepsLine style measure name (trim (l.flatMap SpacedAttribute.text)) ending depth ∧
      ∃ (l' : List SpacedAttribute) (gap : Text),
        formatAttributes style measure name (trim (l.flatMap SpacedAttribute.text)) ending depth =
          l'.flatMap SpacedAttribute.text ++ gap ∧
            HasPlainBlanks (l'.flatMap SpacedAttribute.text) ∧
        (∀ c ∈ gap, c ∈ plainBlanks) ∧
          List.Forall₂ (fun x y => LaidAs style.ranking x.parsed y.parsed) l l') := by
  have hwritten : ∀ x ∈ l, HasPlainBlanks x.written :=
    fun x hx => SpacedAttribute.plain_of_mem hx hplain
  cases l with
  | nil =>
    by_cases hkeeps : KeepsLine style measure name (trim ([].flatMap SpacedAttribute.text))
      ending depth
    · exact Or.inl ⟨hkeeps, rfl⟩
    · exact Or.inr ⟨hkeeps, [], [], rfl, by simp [HasPlainBlanks], by simp, .nil⟩
  | cons x l =>
    rw [keepsLine_iff]
    unfold formatAttributes
    rw [if_neg (by rw [allBlank_trim_attributes hplain]; exact Bool.false_ne_true)]
    dsimp only
    rw [cons_collapse_trim hplain, (attributesOf_flatMap hplain).2]
    split
    next hkeeps =>
      refine Or.inl ⟨?_, rfl⟩
      simpa [and_assoc] using hkeeps
    next hkeeps =>
      refine Or.inr ⟨by simpa [and_assoc] using hkeeps, ?_⟩
      split
      · obtain ⟨l', htext, hlaid⟩ :=
          exists_of_isUnitOf style.ranking (fun a => ' ' :: renderAttribute style.ranking a)
          fun y hy => isUnitOf_line style.ranking y.isAttribute (hwritten y hy)
        exact ⟨l', [], by rw [List.append_nil]; exact htext, hlaid.1, by simp, hlaid.2⟩
      · refine (exists_of_isUnitOf style.ranking _ fun y hy => ?_).elim fun l' hl' =>
          ⟨l', onNewLine depth [], by rw [hl'.1], hl'.2.1,
            fun c => mem_plainBlanks_onNewLine_nil, hl'.2.2⟩
        split
        next hbreak =>
          obtain ⟨hlist, -⟩ := Bool.and_eq_true_iff.mp hbreak
          exact isUnitOf_brokenAttribute style measure (depth + 1) y.isAttribute
            (hwritten y hy) hlist
        next => exact isUnitOf_onNewLine style.ranking (depth + 1) y.isAttribute (hwritten y hy)

theorem exists_of_mem_forall₂ {α β : Type} {r : α → β → Prop} {l : List α} {m : List β}
    (h : List.Forall₂ r l m) {y : β} (hy : y ∈ m) : ∃ x ∈ l, r x y := by
  induction h with
  | nil => simp at hy
  | @cons a b l m hab _ ih =>
    rcases List.mem_cons.mp hy with rfl | hy
    · exact ⟨a, List.mem_cons_self, hab⟩
    · obtain ⟨x, hx, hxy⟩ := ih hy
      exact ⟨x, List.mem_cons_of_mem a hx, hxy⟩

/-- The attributes stay as they are written, or they are laid out with all values in quotes, perhaps
with blanks after the last. -/
theorem formatAttributes_cases {l : List SpacedAttribute}
    (hplain : HasPlainBlanks (l.flatMap SpacedAttribute.text)) (style : AttributeStyle)
    (measure : Text → Nat) (name ending : Text) (depth : Nat) :
    (KeepsLine style measure name (trim (l.flatMap SpacedAttribute.text)) ending depth ∧
      formatAttributes style measure name (trim (l.flatMap SpacedAttribute.text)) ending depth =
        squeeze (l.flatMap SpacedAttribute.text)) ∨
    (¬ KeepsLine style measure name (trim (l.flatMap SpacedAttribute.text)) ending depth ∧
      ∃ (l' : List SpacedAttribute) (gap : Text),
        formatAttributes style measure name (trim (l.flatMap SpacedAttribute.text)) ending depth =
          l'.flatMap SpacedAttribute.text ++ gap ∧
            HasPlainBlanks (l'.flatMap SpacedAttribute.text) ∧
        (∀ c ∈ gap, c ∈ plainBlanks) ∧ ∀ y ∈ l', ¬ y.parsed.IsUnquoted) := by
  rcases formatAttributes_laidAs hplain style measure name ending depth with
    hkept | ⟨hkeeps, l', gap, hlaid, hplain', hgap, hall⟩
  · exact Or.inl hkept
  · refine Or.inr ⟨hkeeps, l', gap, hlaid, hplain', hgap, fun y hy => ?_⟩
    obtain ⟨x, -, hxy⟩ := exists_of_mem_forall₂ hall hy
    exact hxy.not_isUnquoted

theorem tokens_laidTag_eq {style : AttributeStyle} {measure : Text → Nat} {name attributes : Text}
    {ending : Ending} {depth : Nat} {l : List SpacedAttribute} {gap : Text}
    (hlaid : formatAttributes style measure name (trim attributes) ending.written depth =
      l.flatMap SpacedAttribute.text ++ gap) (hname : isTagName name)
    (hl : HasPlainBlanks (l.flatMap SpacedAttribute.text)) (hgap : ∀ c ∈ gap, c ∈ plainBlanks)
    (hlast : gap = [] → ending = .slash → ∀ x ∈ l.getLast?, ¬ x.parsed.IsUnquoted) :
    tokens (laidTag style measure name attributes ending depth) =
      [⟨0, false, .tag (.opening name (l.flatMap SpacedAttribute.text) gap ending)⟩] := by
  have hread := tag?_opening hname hl (fun c hc => isBlank_of_mem_plainBlanks (hgap c hc))
    (fun c hc _ => hgap c hc) hlast []
  apply tokens_of_run
  rw [laidTag, hlaid]
  simpa [tags] using hread

/-- An opening tag with plain blanks, once it is laid out, is read as one opening tag with the name
and the end it had, unless it closes itself, keeps its attributes as they are written and ends with
a value without quotes. -/
theorem tokens_laidTag_iff {body name attributes gap : Text} {ending : Ending} {t : Token}
    (ht : t ∈ tokens body) (hopening : t.lexeme = .tag (.opening name attributes gap ending))
    (hplain : HasPlainBlanks attributes) (style : AttributeStyle) (measure : Text → Nat)
    (depth : Nat) :
    (∃ attributes' gap', tokens (laidTag style measure name attributes ending depth) =
        [⟨0, false, .tag (.opening name attributes' gap' ending)⟩]) ↔
      ¬ (ending = .slash ∧ KeepsLine style measure name (trim attributes) ending.written depth ∧
        ∃ a ∈ (attributesOf attributes).getLast?, a.IsUnquoted) := by
  have hread := fits_of_mem_tokens ht
  rw [hopening] at hread
  have hname : isTagName name := (tag?_eq_some_isRead (hread [])).1
  obtain ⟨l, rfl⟩ := exists_attributes_of_run (hread [])
  rw [(attributesOf_flatMap hplain).1, List.getLast?_map]
  rcases formatAttributes_cases hplain style measure name ending.written depth with
    ⟨hkeeps, hlaid⟩ | ⟨hkeeps, l', gap', hlaid, hplain', hgap, hquoted⟩
  · -- the attributes as they are written, with no blank before the end of the tag
    obtain ⟨l', htext, hparsed⟩ := exists_squeezed hplain
    have hplain' : HasPlainBlanks (l'.flatMap SpacedAttribute.text) :=
      htext ▸ hasPlainBlanks_squeeze _
    have hunquoted : (∃ x ∈ l'.getLast?, x.parsed.IsUnquoted) ↔
        ∃ a ∈ l.getLast?.map SpacedAttribute.parsed, a.IsUnquoted := by
      have hlast := congrArg List.getLast? hparsed
      rw [List.getLast?_map, List.getLast?_map] at hlast
      cases hl : l.getLast? <;> cases hl' : l'.getLast? <;> rw [hl, hl'] at hlast <;>
        simp at hlast ⊢
      rw [hlast, Attribute.isUnquoted_squeezed]
    rw [← htext] at hlaid
    by_cases hswallowed : ending = .slash ∧ ∃ x ∈ l'.getLast?, x.parsed.IsUnquoted
    · obtain ⟨rfl, x, hx, hxu⟩ := hswallowed
      obtain ⟨attributes', hswallow⟩ := exists_tag?_of_isUnquoted hname hplain' hx hxu []
      have htokens : tokens (laidTag style measure name (l.flatMap SpacedAttribute.text)
        .slash depth) =
          [⟨0, false, .tag (.opening name attributes' [] .plain)⟩] := by
        apply tokens_of_run
        rw [laidTag, hlaid]
        simpa [tags] using hswallow
      rw [htokens]
      constructor
      · rintro ⟨_, _, heq⟩
        simp at heq
      · intro hnot
        exact absurd ⟨rfl, hkeeps, hunquoted.mp ⟨x, hx, hxu⟩⟩ hnot
    · constructor
      · rintro - ⟨hslash, -, hlast⟩
        exact hswallowed ⟨hslash, hunquoted.mpr hlast⟩
      · intro _
        refine ⟨_, [], tokens_laidTag_eq (by simpa using hlaid) hname hplain' (by simp) ?_⟩
        intro _ hslash x hx hxu
        exact hswallowed ⟨hslash, x, hx, hxu⟩
  · constructor
    · rintro - ⟨-, hkeeps', -⟩
      exact hkeeps hkeeps'
    · intro _
      refine ⟨_, gap', tokens_laidTag_eq hlaid hname hplain' hgap ?_⟩
      intro _ _ x hx
      exact hquoted x (List.mem_of_mem_getLast? hx)

theorem tokens_laidTag_input :
    (⟨3, false, .tag (.opening "input".toList " class=x type=text".toList [' '] .slash)⟩ : Token) ∈
        tokens "<p><input class=x type=text /></p>".toList ∧
      HasPlainBlanks " class=x type=text".toList ∧
      ∃ attributes' gap', tokens (laidTag ⟨80, false, none⟩ List.length "input".toList
        " class=x type=text".toList
          .slash 1) = [⟨0, false, .tag (.opening "input".toList attributes' gap' .slash)⟩] := by
  have hmem : (⟨3, false, .tag (.opening "input".toList " class=x type=text".toList [' '] .slash)⟩ :
    Token) ∈
      tokens "<p><input class=x type=text /></p>".toList := by decide +kernel
  have hplain : HasPlainBlanks " class=x type=text".toList := by decide +kernel
  exact ⟨hmem, hplain, (tokens_laidTag_iff hmem rfl hplain _ _ _).mpr (by decide +kernel)⟩

/-- The tag of this text closes itself; laid out, it is read as one that does not. -/
theorem laidTag_takes_slash :
    tokens "<a b=c />".toList = [⟨0, false, .tag (.opening ['a'] " b=c".toList [' '] .slash)⟩] ∧
      tokens (laidTag ⟨80, false, none⟩ List.length ['a'] " b=c".toList .slash 0) =
        [⟨0, false, .tag (.opening ['a'] " b=c/".toList [] .plain)⟩] := by
  decide +kernel

end ErbLayout.Layout
