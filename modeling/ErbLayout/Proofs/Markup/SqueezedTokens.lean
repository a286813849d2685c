import ErbLayout.Proofs.Markup.Squeeze
import ErbLayout.Proofs.Markup.Tiling

/-!
Reading a text whose blanks are squeezed. With plain blanks alone, no reader of markup looks at the
kind or the number of the blanks in a stretch: what it reads of the squeezed text is what it reads
of the text, squeezed. So the lexemes of a body without raw content, each squeezed, are the lexemes
of the body squeezed.
-/

namespace ErbLayout.Markup

open Text

theorem head?_squeeze (s : Text) :
    (squeeze s).head? = s.head?.map fun c => if isBlank c then ' ' else c := by
  induction s with
  | nil => rfl
  | cons c s ih =>
    by_cases hc : isBlank c = true
    · rw [squeeze_cons_of_isBlank hc]
      split
      next hstart =>
        obtain ⟨d, s, rfl⟩ : ∃ d s', s = d :: s' := by
          cases s with
          | nil => simp [startsBlank] at hstart
          | cons d s' => exact ⟨d, s', rfl⟩
        rw [startsBlank_cons] at hstart
        simp [ih, hc, hstart]
      next => simp [hc]
    · rw [squeeze_cons_of_notBlank (by simpa using hc)]
      simp [hc]

/-- Squeezing brings no character but a space to the front. -/
theorem exists_squeeze_cons {c k : Char} (hk : k ≠ ' ') (hc : c ≠ k) (s : Text) :
    ∃ d u, squeeze (c :: s) = d :: u ∧ d ≠ k := by
  obtain ⟨d, u, hsqueeze⟩ : ∃ d u, squeeze (c :: s) = d :: u :=
    List.exists_cons_of_ne_nil fun hnil => List.cons_ne_nil c s (squeeze_eq_nil_iff.mp hnil)
  refine ⟨d, u, hsqueeze, ?_⟩
  have hhead := head?_squeeze (c :: s)
  rw [hsqueeze] at hhead
  obtain rfl : d = if isBlank c then ' ' else c := by simpa using hhead
  split
  · exact hk.symm
  · exact hc

theorem squeeze_append_of_notBlank {a : Text} (ha : ∀ c ∈ a, isBlank c = false) (r : Text) :
    squeeze (a ++ r) = a ++ squeeze r := by
  have hend : endsBlank a = false := by
    by_cases hnil : a = []
    · rw [hnil]
      rfl
    · obtain ⟨u, c, rfl⟩ := (List.eq_nil_or_concat a).resolve_left hnil
      rw [List.concat_eq_append] at ha ⊢
      rw [endsBlank_concat]
      exact ha c (by simp)
  rw [squeeze_append (Or.inl hend), squeeze_eq_self ha]

/-- A run of characters that ends at the first blank. -/
theorem spanOf_squeeze_of_stops {p : Char → Bool} {s : Text} (hp : ∀ c ∈ s, isBlank c → p c = false)
    (hspace : p ' ' = false) : spanOf p (squeeze s) = ((spanOf p s).1, squeeze (spanOf p s).2) := by
  have hwhole := spanOf_append p s
  have hvisible : ∀ c ∈ (spanOf p s).1, isBlank c = false := by
    intro c hc
    by_contra hblank
    have hstop := hp c (by rw [← hwhole]; exact List.mem_append_left _ hc) (by simpa using hblank)
    rw [mem_spanOf hc] at hstop
    simp at hstop
  have hsqueeze := squeeze_append_of_notBlank hvisible (spanOf p s).2
  rw [hwhole] at hsqueeze
  rw [hsqueeze]
  apply spanOf_append_eq fun c hc => mem_spanOf hc
  intro c hc
  rw [head?_squeeze, Option.mem_def, Option.map_eq_some_iff] at hc
  obtain ⟨d, hd, rfl⟩ := hc
  split
  · exact hspace
  · exact head?_spanOf hd

/-- A run of characters that goes on over blanks. -/
theorem spanOf_squeeze_of_blank {p : Char → Bool} (hp : ∀ c, isBlank c → p c) (s : Text) :
    spanOf p (squeeze s) = (squeeze (spanOf p s).1, squeeze (spanOf p s).2) := by
  have hwhole := spanOf_append p s
  have hnext : ∀ c ∈ (spanOf p s).2.head?, isBlank c = false := by
    intro c hc
    by_contra hblank
    have hstop := head?_spanOf hc
    rw [hp c (by simpa using hblank)] at hstop
    simp at hstop
  have hstart : startsBlank (spanOf p s).2 = false := by
    cases hrest : (spanOf p s).2.head? with
    | none => simp [startsBlank, hrest]
    | some c => simp [startsBlank, hrest, hnext c hrest]
  have hsqueeze := squeeze_append (s := (spanOf p s).1) (Or.inr hstart)
  rw [hwhole] at hsqueeze
  rw [hsqueeze]
  apply spanOf_append_eq
  · intro c hc
    rcases mem_squeeze hc with rfl | ⟨hc, -⟩
    · exact hp ' ' (by decide)
    · exact mem_spanOf hc
  · intro c hc
    rw [head?_squeeze, Option.mem_def, Option.map_eq_some_iff] at hc
    obtain ⟨d, hd, rfl⟩ := hc
    rw [if_neg (by simp [hnext d hd])]
    exact head?_spanOf hd

def squeezeBoth (x : Text × Text) : Text × Text := (squeeze x.1, squeeze x.2)

theorem quotedRest?_squeeze {q : Char} (hq : isBlank q = false) (s : Text) :
    quotedRest? q (squeeze s) = (quotedRest? q s).map squeezeBoth := by
  have hgoes : ∀ c, isBlank c → (c != q) = true := by
    intro c hc
    simp only [bne_iff_ne, ne_eq]
    rintro rfl
    rw [hq] at hc
    simp at hc
  have hhead : ∀ c ∈ (spanOf (· != q) s).2.head?, c = q := by
    intro c hc
    simpa using head?_spanOf (p := (· != q)) hc
  unfold quotedRest?
  rw [spanOf_squeeze_of_blank hgoes s]
  generalize spanOf (· != q) s = parts at hhead
  obtain ⟨value, rest⟩ := parts
  cases rest with
  | nil => rfl
  | cons d rest =>
    obtain rfl : d = q := hhead d rfl
    have hvalue : squeeze (value ++ [d]) = squeeze value ++ [d] := by
      rw [squeeze_append (Or.inr (by rwa [startsBlank_cons])), squeeze_cons_of_notBlank hq]
      rfl
    simp [squeeze_cons_of_notBlank hq, squeezeBoth, hvalue]

def value? : Text → Option (Text × Text)
  | '\'' :: r => (quotedRest? '\'' r).map fun (v, rest) => ('\'' :: v, rest)
  | '"' :: r => (quotedRest? '"' r).map fun (v, rest) => ('"' :: v, rest)
  | r => bareValue? r

theorem value?_of_ne {r : Text} (happos : r.head? ≠ some '\'') (hquot : r.head? ≠ some '"') :
    value? r = bareValue? r := by
  cases r with
  | nil => rfl
  | cons c r =>
    have hc : c ≠ '\'' ∧ c ≠ '"' := ⟨by simpa using happos, by simpa using hquot⟩
    simp [value?, hc.1, hc.2]

theorem valuedAttribute?_eq (s : Text) :
    valuedAttribute? s =
      if (spanOf isAttributeNameChar s).1.isEmpty || (spanOf isAttributeNameChar s).1.getLast? ==
        some '/' then none
      else
        match (spanOf isAttributeNameChar s).2 with
        | '=' :: r =>
          (value? r).map fun (v, rest) => ((spanOf isAttributeNameChar s).1 ++ '=' :: v, rest)
        | _ => none := by
  unfold valuedAttribute?
  dsimp only
  split
  · rfl
  · cases (spanOf isAttributeNameChar s).2 with
    | nil => rfl
    | cons c tail =>
      by_cases hc : c = '='
      · subst hc
        cases tail with
        | nil => rfl
        | cons d tail =>
          by_cases happos : d = '\''
          · subst happos
            simp [value?, Function.comp_def]
          · by_cases hquot : d = '"'
            · subst hquot
              simp [value?, Function.comp_def]
            · have hvalue : value? (d :: tail) = bareValue? (d :: tail) :=
                value?_of_ne (by simpa using happos) (by simpa using hquot)
              by_cases hempty : (spanOf isBareValueChar (d :: tail)).1 = []
              · simp [happos, hquot, hvalue, bareValue?, hempty]
              · simp [happos, hquot, hvalue, bareValue?, hempty]
      · simp [hc]

theorem bareValue?_squeeze (s : Text) :
    bareValue? (squeeze s) = (bareValue? s).map squeezeBoth := by
  have hstops : ∀ c ∈ s, isBlank c → isBareValueChar c = false := by
    intro c _ hblank
    simp [isBareValueChar, hblank]
  have hvisible : ∀ c ∈ (spanOf isBareValueChar s).1, isBlank c = false :=
    fun c hc => isBlank_eq_false_of_isBareValueChar (mem_spanOf hc)
  unfold bareValue?
  rw [spanOf_squeeze_of_stops hstops (by decide)]
  dsimp only
  split
  · rfl
  · simp [squeezeBoth, squeeze_eq_self hvisible]

theorem value?_squeeze (s : Text) : value? (squeeze s) = (value? s).map squeezeBoth := by
  have hquoted : ∀ {q : Char} (r : Text), isBlank q = false →
      (quotedRest? q (squeeze r)).map (fun (v, rest) => (q :: v, rest)) =
        ((quotedRest? q r).map fun (v, rest) => (q :: v, rest)).map squeezeBoth := by
    intro q r hq
    rw [quotedRest?_squeeze hq, Option.map_map, Option.map_map]
    congr 1
    funext x
    simp [squeezeBoth, squeeze_cons_of_notBlank hq]
  have hbare : s.head? ≠ some '\'' → s.head? ≠ some '"' →
      value? (squeeze s) = (value? s).map squeezeBoth := by
    intro happos hquot
    have hhead : ∀ q, q ≠ ' ' → s.head? ≠ some q → (squeeze s).head? ≠ some q := by
      intro q hspace hne heq
      rw [head?_squeeze, Option.map_eq_some_iff] at heq
      obtain ⟨c, hc, heq⟩ := heq
      split at heq
      · exact hspace heq.symm
      · exact hne (heq ▸ hc)
    rw [value?_of_ne happos hquot, value?_of_ne (hhead _ (by decide) happos)
      (hhead _ (by decide) hquot), bareValue?_squeeze]
  cases s with
  | nil => exact hbare (by simp) (by simp)
  | cons c s =>
    by_cases happos : c = '\''
    · subst happos
      rw [squeeze_cons_of_notBlank (by decide)]
      exact hquoted s (by decide)
    · by_cases hquot : c = '"'
      · subst hquot
        rw [squeeze_cons_of_notBlank (by decide)]
        exact hquoted s (by decide)
      · exact hbare (by simpa using happos) (by simpa using hquot)

section
variable {s : Text} (h : HasPlainBlanks s)
include h

theorem spanOf_isAttributeNameChar_squeeze :
    spanOf isAttributeNameChar (squeeze s) =
      ((spanOf isAttributeNameChar s).1, squeeze (spanOf isAttributeNameChar s).2) := by
  apply spanOf_squeeze_of_stops _ (by decide)
  intro c hc hblank
  exact isAttributeNameChar_of_mem_plainBlanks (h c hc hblank)

theorem isBlank_eq_false_of_mem_name :
    ∀ c ∈ (spanOf isAttributeNameChar s).1, isBlank c = false := by
  intro c hc
  have hmem : c ∈ s := by
    rw [← spanOf_append isAttributeNameChar s]
    exact List.mem_append_left _ hc
  exact h.isBlank_eq_false hmem (mem_spanOf hc)

theorem valuedAttribute?_squeeze :
    valuedAttribute? (squeeze s) = (valuedAttribute? s).map squeezeBoth := by
  have hname := isBlank_eq_false_of_mem_name h
  rw [valuedAttribute?_eq, valuedAttribute?_eq, spanOf_isAttributeNameChar_squeeze h]
  generalize spanOf isAttributeNameChar s = parts at hname
  obtain ⟨name, tail⟩ := parts
  dsimp only at hname ⊢
  split
  · rfl
  · cases tail with
    | nil => rfl
    | cons c tail =>
      by_cases hc : c = '='
      · subst hc
        have hsign : isBlank '=' = false := by decide
        rw [squeeze_cons_of_notBlank hsign]
        change (value? (squeeze tail)).map (fun (v, rest) => (name ++ '=' :: v, rest)) =
          ((value? tail).map fun (v, rest) => (name ++ '=' :: v, rest)).map squeezeBoth
        rw [value?_squeeze, Option.map_map, Option.map_map]
        congr 1
        funext x
        simp [squeezeBoth, squeeze_append_of_notBlank hname, squeeze_cons_of_notBlank hsign]
      · obtain ⟨d, u, hsqueeze, hd⟩ := exists_squeeze_cons (k := '=') (by decide) hc tail
        simp [hsqueeze, hc, hd]

theorem bareAttribute?_squeeze :
    bareAttribute? (squeeze s) = (bareAttribute? s).map squeezeBoth := by
  have hvisible : ∀ c ∈ dropFinalSlashes (spanOf isAttributeNameChar s).1, isBlank c = false := by
    intro c hc
    exact isBlank_eq_false_of_mem_name h c ((dropFinalSlashes_isPrefix _).subset hc)
  have hwhole : dropFinalSlashes (spanOf isAttributeNameChar s).1 <+: s :=
    (dropFinalSlashes_isPrefix _).trans ⟨_, spanOf_append isAttributeNameChar s⟩
  unfold bareAttribute?
  rw [spanOf_isAttributeNameChar_squeeze h]
  dsimp only
  generalize dropFinalSlashes (spanOf isAttributeNameChar s).1 = name at hvisible hwhole
  obtain ⟨rest, rfl⟩ := hwhole
  rw [squeeze_append_of_notBlank hvisible, List.drop_left, List.drop_left]
  split
  · rfl
  · simp [squeezeBoth, squeeze_eq_self hvisible]

theorem spacedAttribute?_squeeze :
    spacedAttribute? (squeeze s) = (spacedAttribute? s).map squeezeBoth := by
  obtain ⟨b, w, rfl, hb, hw⟩ : ∃ b w, s = b ++ w ∧ (∀ c ∈ b, isBlank c) ∧
      startsBlank w = false := by
    refine ⟨(spanOf isBlank s).1, (spanOf isBlank s).2, (spanOf_append isBlank s).symm, fun c hc =>
      mem_spanOf hc, ?_⟩
    cases hrest : (spanOf isBlank s).2.head? with
    | none => simp [startsBlank, hrest]
    | some c => simp [startsBlank, hrest, head?_spanOf (p := isBlank) hrest]
  have hwplain : HasPlainBlanks w := h.of_isInfix (List.suffix_append b w).isInfix
  by_cases hnil : b = []
  · -- no blank, no attribute
    have hnone : ∀ v : Text, startsBlank v = false → spacedAttribute? v = none := by
      intro v hv
      have hspan : spanOf isBlank v = ([], v) := by
        apply spanOf_append_eq (a := []) (by simp)
        intro c hc
        rw [startsBlank, Option.mem_def.mp hc] at hv
        simpa using hv
      simp [spacedAttribute?, blankSplits, hspan]
    rw [hnil, List.nil_append, hnone w hw, hnone _ (by rw [startsBlank_squeeze, hw])]
    rfl
  · have hgap : IsPlainGap b :=
      isPlainGap_of_hasPlainBlanks hnil hb (h.of_isInfix (List.prefix_append b w).isInfix)
    have hspace : IsPlainGap [' '] := ⟨List.cons_ne_nil _ _, by simp; decide, by simp; decide⟩
    rw [squeeze_append (Or.inr hw), squeeze_blanks hnil hb, spacedAttribute?_append_eq hgap hw,
      spacedAttribute?_append_eq hspace (by rw [startsBlank_squeeze, hw]),
      valuedAttribute?_squeeze hwplain, bareAttribute?_squeeze hwplain, ← Option.map_or,
      Option.map_map, Option.map_map]
    cases hread : (valuedAttribute? w).or (bareAttribute? w) with
    | none => rfl
    | some x =>
      -- what is read starts as the text does, with no blank
      have hx : w = x.1 ++ x.2 ∧ x.1 ≠ [] := by
        rcases Option.or_eq_some_iff.mp hread with hread | ⟨-, hread⟩
        · exact ⟨valuedAttribute?_eq_some hread, valuedAttribute?_ne_nil hread⟩
        · exact ⟨bareAttribute?_eq_some hread, (isAttributeName_of_bareAttribute? hread).ne_nil⟩
      have hstart : startsBlank x.1 = false := by
        rw [hx.1, startsBlank_append hx.2] at hw
        exact hw
      simp [squeezeBoth, squeeze_append (Or.inr hstart), squeeze_blanks hnil hb]

end

theorem attributeList_squeeze {s : Text} (h : HasPlainBlanks s) :
    attributeList (squeeze s) = squeezeBoth (attributeList s) := by
  fun_induction attributeList s with
  | case1 s hnone =>
    have hsqueezed := spacedAttribute?_squeeze h
    rw [hnone] at hsqueezed
    exact attributeList_of_eq_none hsqueezed
  | case2 s a r hsome ih =>
    have hsqueezed := spacedAttribute?_squeeze h
    rw [hsome] at hsqueezed
    obtain ⟨rfl, -⟩ := spacedAttribute?_eq_some hsome
    obtain ⟨x, rfl⟩ := exists_spacedAttribute hsome
    have hend := (x.ends_text (h.of_isInfix (List.prefix_append _ r).isInfix)).2
    rw [attributeList_of_eq_some hsqueezed, ih (h.of_isInfix (List.suffix_append x.text r).isInfix)]
    simp [squeezeBoth, squeeze_append (Or.inl hend)]

def Tag.squeezed : Tag → Tag
  | .opening name attributes gap ending => .opening name (squeeze attributes) (squeeze gap) ending
  | .closing lead name trail => .closing (squeeze lead) name (squeeze trail)

theorem spanOf_isTagNameChar_squeeze (s : Text) :
    spanOf isTagNameChar (squeeze s) = ((spanOf isTagNameChar s).1,
      squeeze (spanOf isTagNameChar s).2) :=
  spanOf_squeeze_of_stops (fun _ _ => isTagNameChar_eq_false_of_isBlank) (by decide)

theorem spanOf_isBlank_squeeze (s : Text) :
    spanOf isBlank (squeeze s) = squeezeBoth (spanOf isBlank s) :=
  spanOf_squeeze_of_blank (fun _ hc => hc) s

theorem closingTag?_squeeze (s : Text) :
    closingTag? (squeeze s) = (closingTag? s).map fun (t, r) => (t.squeezed, squeeze r) := by
  simp only [closingTag?, spanOf_isBlank_squeeze, squeezeBoth, spanOf_isTagNameChar_squeeze]
  generalize (spanOf isBlank (spanOf isTagNameChar (spanOf isBlank s).2).2).2 = rest
  split
  · rfl
  · cases rest with
    | nil => rfl
    | cons c rest =>
      by_cases hc : c = '>'
      · subst hc
        rw [squeeze_cons_of_notBlank (by decide)]
        rfl
      · obtain ⟨d, u, hsqueeze, hd⟩ := exists_squeeze_cons (k := '>') (by decide) hc rest
        simp [hsqueeze, hc, hd]

theorem openingTag?_squeeze {s : Text} (h : HasPlainBlanks s) :
    openingTag? (squeeze s) = (openingTag? s).map fun (t, r) => (t.squeezed, squeeze r) := by
  have hrest : HasPlainBlanks (spanOf isTagNameChar s).2 :=
    h.of_isInfix ⟨(spanOf isTagNameChar s).1, [],
      by rw [List.append_nil]; exact spanOf_append isTagNameChar s⟩
  simp only [openingTag?, spanOf_isTagNameChar_squeeze, attributeList_squeeze hrest,
    spanOf_isBlank_squeeze, squeezeBoth]
  generalize (spanOf isBlank (attributeList (spanOf isTagNameChar s).2).2).2 = rest
  split
  · rfl
  · cases rest with
    | nil => rfl
    | cons c rest =>
      by_cases hplain : c = '>'
      · subst hplain
        rw [squeeze_cons_of_notBlank (by decide)]
        rfl
      · by_cases hslash : c = '/'
        · subst hslash
          rw [squeeze_cons_of_notBlank (by decide)]
          cases rest with
          | nil => rfl
          | cons d rest =>
            by_cases hd : d = '>'
            · subst hd
              rw [squeeze_cons_of_notBlank (by decide)]
              rfl
            · obtain ⟨e, u, hsqueeze, he⟩ := exists_squeeze_cons (k := '>') (by decide) hd rest
              simp [hsqueeze, hd, he]
        · obtain ⟨d, u, hsqueeze, hd⟩ := exists_squeeze_cons (k := '>') (by decide) hplain rest
          have hhead := head?_squeeze (c :: rest)
          rw [hsqueeze] at hhead
          have hd' : d ≠ '/' := by
            obtain rfl : d = if isBlank c then ' ' else c := by simpa using hhead
            split
            · decide
            · exact hslash
          simp [hsqueeze, hplain, hslash, hd, hd']

theorem tag?_eq_none {s : Text} (h : s.head? ≠ some '<') : tag? s = none := by
  cases s with
  | nil => rfl
  | cons c s =>
    have hc : c ≠ '<' := by simpa using h
    simp [tag?, hc]

theorem tag?_squeeze {s : Text} (h : HasPlainBlanks s) :
    tag? (squeeze s) = (tag? s).map fun (t, r) => (t.squeezed, squeeze r) := by
  cases s with
  | nil => rfl
  | cons c s =>
    by_cases hc : c = '<'
    · subst hc
      rw [squeeze_cons_of_notBlank (by decide)]
      have hs : HasPlainBlanks s := h.of_isInfix (List.suffix_cons '<' s).isInfix
      cases s with
      | nil => rfl
      | cons d s =>
        by_cases hd : d = '/'
        · subst hd
          rw [squeeze_cons_of_notBlank (by decide)]
          exact closingTag?_squeeze s
        · obtain ⟨e, u, hsqueeze, he⟩ := exists_squeeze_cons (k := '/') (by decide) hd s
          have hhead : (squeeze (d :: s)).head? ≠ some '/' := by simpa [hsqueeze] using he
          rw [tag?_eq_openingTag? hhead, tag?_eq_openingTag? (by simpa using hd)]
          exact openingTag?_squeeze hs
    · obtain ⟨d, u, hsqueeze, hd⟩ := exists_squeeze_cons (k := '<') (by decide) hc s
      rw [hsqueeze, tag?_eq_none (by simpa using hd), tag?_eq_none (by simpa using hc)]
      rfl

/-- What the recogniser reads of a squeezed text is what it reads of the text, squeezed, and nothing
that it reads starts with a blank. -/
structure Squeezes {α : Type} (p : Recogniser α) (f : α → α) : Prop where
  run_squeeze : ∀ {s}, HasPlainBlanks s → p.run (squeeze s) = (p.run s).map fun (a, r) =>
    (f a, squeeze r)
  run_blank : ∀ {c s}, isBlank c → HasPlainBlanks (c :: s) → p.run (c :: s) = none

namespace Squeezes

variable {α : Type} {p : Recogniser α} {f : α → α}

theorem first?_squeeze (hp : Squeezes p f) {s : Text} (h : HasPlainBlanks s) :
    p.first? (squeeze s) = (p.first? s).map fun (b, a, r) => (squeeze b, f a, squeeze r) := by
  induction s with
  | nil => rfl
  | cons c s ih =>
    have hs : HasPlainBlanks s := h.of_isInfix (List.suffix_cons c s).isInfix
    have ih := ih hs
    by_cases hc : isBlank c = true
    · -- nothing is read at the blank, and it counts once with the blanks after it
      have hspace : p.run (' ' :: squeeze s) = none := by
        apply hp.run_blank (by decide)
        intro d hd hblank
        rcases List.mem_cons.mp hd with rfl | hd
        · decide
        · exact hasPlainBlanks_squeeze s d hd hblank
      have hfirst : p.first? (c :: s) = (p.first? s).map fun (b, a, r) => (c :: b, a, r) := by
        simp only [Recogniser.first?, hp.run_blank hc h]
      rw [squeeze_cons_of_isBlank hc, hfirst]
      cases hread : p.first? s with
      | none =>
        rw [hread] at ih
        split
        · exact ih
        · simp only [Recogniser.first?, hspace, ih, Option.map_none]
      | some x =>
        obtain ⟨b, a, r⟩ := x
        rw [hread] at ih
        obtain ⟨heq, hrun, -⟩ := Recogniser.first?_eq_some_iff.mp hread
        have hstart : startsBlank s = startsBlank b := by
          by_cases hnil : b = []
          · subst hnil
            rw [List.nil_append] at heq
            cases s with
            | nil => rfl
            | cons d s =>
              rw [startsBlank_cons]
              by_contra hd
              have hnone := hp.run_blank (by simpa [startsBlank] using hd) hs
              rw [heq, hrun] at hnone
              simp at hnone
          · rw [heq, startsBlank_append hnil]
        simp only [Option.map_some] at ih ⊢
        rw [squeeze_cons_of_isBlank hc, ← hstart]
        split
        · exact ih
        · simp only [Recogniser.first?, hspace, ih, Option.map_some]
    · have hc : isBlank c = false := by simpa using hc
      have hrun := hp.run_squeeze h
      rw [squeeze_cons_of_notBlank hc] at hrun ⊢
      simp only [Recogniser.first?, hrun, ih]
      cases p.run (c :: s) with
      | none =>
        cases p.first? s with
        | none => rfl
        | some x => simp [squeeze_cons_of_notBlank hc]
      | some x => rfl

theorem split_squeeze (hp : Squeezes p f) {s : Text} (h : HasPlainBlanks s) :
    p.split (squeeze s) =
      ((p.split s).1.map fun (b, a) => (squeeze b, f a), squeeze (p.split s).2) := by
  fun_induction Recogniser.split p s with
  | case1 s hnone =>
    have hfirst := hp.first?_squeeze h
    rw [hnone] at hfirst
    exact Recogniser.split_of_first?_eq_none hfirst
  | case2 s b a r hsome ih =>
    have hfirst := hp.first?_squeeze h
    rw [hsome] at hfirst
    have hrest : HasPlainBlanks r := by
      obtain ⟨rfl, -⟩ := Recogniser.first?_eq_some hsome
      exact h.of_isInfix ⟨b ++ p.written a, [], by simp⟩
    rw [Recogniser.split_of_first?_eq_some hfirst, ih hrest]
    rfl

theorem occursIn_squeeze (hp : Squeezes p f) {s : Text} (h : HasPlainBlanks s) :
    p.occursIn (squeeze s) = p.occursIn s := by
  rw [Recogniser.occursIn, hp.first?_squeeze h, Option.isSome_map]
  rfl

end Squeezes

theorem squeezes_tags : Squeezes tags Tag.squeezed where
  run_squeeze := tag?_squeeze
  run_blank := by
    intro c s hc _
    apply tag?_eq_none
    rintro heq
    obtain rfl : c = '<' := by simpa using heq
    revert hc
    decide

theorem squeezes_badAttributes : Squeezes badAttributes squeeze where
  run_squeeze := by
    intro s h
    change badAttribute? (squeeze s) = (badAttribute? s).map fun (a, r) => (squeeze a, squeeze r)
    have hname := isBlank_eq_false_of_mem_name h
    unfold badAttribute?
    rw [spanOf_isAttributeNameChar_squeeze h]
    generalize spanOf isAttributeNameChar s = parts at hname
    obtain ⟨name, tail⟩ := parts
    dsimp only at hname ⊢
    split
    · rfl
    · cases tail with
      | nil => rfl
      | cons c tail =>
        by_cases hc : c = '='
        · subst hc
          have hsign : isBlank '=' = false := by decide
          rw [squeeze_cons_of_notBlank hsign]
          by_cases hempty : (spanOf isBlank tail).1 = []
          · simp [spanOf_isBlank_squeeze, squeezeBoth, hempty, squeeze]
          · have hne : squeeze (spanOf isBlank tail).1 ≠ [] :=
              fun hnil => hempty (squeeze_eq_nil_iff.mp hnil)
            simp [spanOf_isBlank_squeeze, squeezeBoth, hempty, hne,
              squeeze_append_of_notBlank hname, squeeze_cons_of_notBlank hsign]
        · obtain ⟨d, u, hsqueeze, hd⟩ := exists_squeeze_cons (k := '=') (by decide) hc tail
          simp [hsqueeze, hc, hd]
  run_blank := by
    intro c s hc h
    have hplain := isAttributeNameChar_of_mem_plainBlanks (h c List.mem_cons_self hc)
    have hspan : spanOf isAttributeNameChar (c :: s) = ([], c :: s) :=
      spanOf_append_eq (a := []) (by simp) (by simpa using hplain)
    change badAttribute? (c :: s) = none
    simp [badAttribute?, hspan]

def Lexeme.squeezed : Lexeme → Lexeme
  | .text s => .text (squeeze s)
  | .raw s => .raw (squeeze s)
  | .tag t => .tag t.squeezed
  | .unrecognized s => .unrecognized (squeeze s)

theorem Tag.rawContainer?_squeezed (t : Tag) : t.squeezed.rawContainer? = t.rawContainer? := by
  cases t with
  | closing lead name trail => rfl
  | opening name attributes gap ending => cases ending <;> rfl

theorem leadingLexeme_squeeze (s : Text) :
    leadingLexeme none (squeeze s) = (leadingLexeme none s).map Lexeme.squeezed := by
  by_cases hnil : s = []
  · subst hnil
    rfl
  · have hne : squeeze s ≠ [] := fun h => hnil (squeeze_eq_nil_iff.mp h)
    simp [leadingLexeme, hnil, hne, Lexeme.squeezed]

/-- The lexemes of a squeezed body that has no raw content are the lexemes of the body, squeezed. -/
theorem lexemesIn_squeeze {s : Text} (h : HasPlainBlanks s)
    (hraw : ∀ t, Lexeme.tag t ∈ lexemesIn none s → t.rawContainer? = none) :
    lexemesIn none (squeeze s) = (lexemesIn none s).map Lexeme.squeezed := by
  induction hn : s.length using Nat.strongRecOn generalizing s with
  | ind n ih =>
    have hfirst : (tagsIn none).first? (squeeze s) = ((tagsIn none).first? s).map fun (b, t, r) =>
        (squeeze b, t.squeezed, squeeze r) := squeezes_tags.first?_squeeze h
    cases hread : (tagsIn none).first? s with
    | none =>
      rw [hread] at hfirst
      rw [lexemesIn_of_first?_eq_none hfirst, lexemesIn_of_first?_eq_none hread,
        leadingLexeme_squeeze]
    | some x =>
      obtain ⟨b, t, r⟩ := x
      rw [hread] at hfirst
      have hlexemes := lexemesIn_of_first? hread
      rw [hlexemes] at hraw ⊢
      have hnone : t.rawContainer? = none := hraw t (by simp)
      rw [hnone] at hraw ⊢
      have hlength := Recogniser.length_after_first? hread
      have hrest : HasPlainBlanks r := by
        obtain ⟨rfl, -⟩ := Recogniser.first?_eq_some hread
        exact h.of_isInfix ⟨b ++ (tagsIn none).written t, [], by simp⟩
      have ih := ih r.length (by omega) hrest (fun t' ht' => hraw t' (by simp [ht'])) rfl
      rw [lexemesIn_of_first? hfirst, Tag.rawContainer?_squeezed, hnone, ih, leadingLexeme_squeeze]
      simp [Lexeme.squeezed]

end ErbLayout.Markup
