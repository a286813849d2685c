import ErbLayout.Proofs.Layout.OpeningTag
import ErbLayout.Proofs.Layout.Squeeze

/-!
The attributes of a tag read again once they are laid out. There are three ways to lay them out: as
they are written, each on the line of the tag, and each on lines of its own. In all of them the
attributes that are read are those there were, one for one and in order, with the tokens that their
values had; only the classes are put in the order of a ranking, and classes of the same rank keep
theirs.
-/

namespace ErbLayout.Markup

open Text Layout

theorem stops_append {l : List SpacedAttribute} {gap : Text}
    (h : HasPlainBlanks (l.flatMap SpacedAttribute.text)) (hgap : ∀ c ∈ gap, c ∈ plainBlanks) :
    Stops (l.flatMap SpacedAttribute.text ++ gap) := by
  intro c hc
  rw [List.head?_append] at hc
  cases hhead : (l.flatMap SpacedAttribute.text).head? with
  | some d =>
    obtain rfl : d = c := by simpa [hhead] using hc
    exact stops_flatMap h d hhead
  | none =>
    have hmem : c ∈ gap := List.mem_of_mem_head? (by simpa [hhead] using hc)
    exact ⟨isBlank_of_mem_plainBlanks (hgap c hmem),
      isAttributeNameChar_of_mem_plainBlanks (hgap c hmem)⟩

/-- Blanks after the last attribute are passed over. -/
theorem split_attributeTexts_append {l : List SpacedAttribute} {gap : Text}
    (h : HasPlainBlanks (l.flatMap SpacedAttribute.text)) (hgap : ∀ c ∈ gap, c ∈ plainBlanks) :
    attributeTexts.split (l.flatMap SpacedAttribute.text ++ gap) =
      (l.map fun x => (x.blanks, x.written), gap) := by
  induction l with
  | nil =>
    apply Recogniser.split_of_first?_eq_none
    rw [Recogniser.first?_eq_none_iff]
    intro v hv
    cases v with
    | nil => exact attributeTexts.run_nil
    | cons c v =>
      have hmem : c ∈ gap := hv.subset List.mem_cons_self
      exact run_eq_none_of_blank (isBlank_of_mem_plainBlanks (hgap c hmem))
        (isAttributeNameChar_of_mem_plainBlanks (hgap c hmem)) v
  | cons x l ih =>
    have hrest : HasPlainBlanks (l.flatMap SpacedAttribute.text) :=
      h.of_isInfix ⟨x.text, [], by simp⟩
    have hfirst := first?_attributeTexts x.isAttribute x.blank
      (h.of_isInfix ⟨[], l.flatMap SpacedAttribute.text, by simp [SpacedAttribute.text]⟩)
      (stops_append hrest hgap)
    have htext : (x :: l).flatMap SpacedAttribute.text ++ gap =
        x.blanks ++ (x.written ++ (l.flatMap SpacedAttribute.text ++ gap)) := by
      simp [SpacedAttribute.text]
    rw [htext, Recogniser.split_of_first?_eq_some hfirst, ih hrest]
    rfl

theorem attributesOf_append {l : List SpacedAttribute} {gap : Text}
    (h : HasPlainBlanks (l.flatMap SpacedAttribute.text)) (hgap : ∀ c ∈ gap, c ∈ plainBlanks) :
    attributesOf (l.flatMap SpacedAttribute.text ++ gap) = l.map SpacedAttribute.parsed := by
  rw [attributesOf, split_attributeTexts_append h hgap,
    ← map_ofText fun x hx => SpacedAttribute.plain_of_mem hx h]
  simp

end ErbLayout.Markup

namespace ErbLayout.Layout

open Text Markup

/-- The list is the source in ascending order of the keys, where those of the same key stand as in
the source. -/
structure IsStableSort {α : Type} (key : α → Nat) (source sorted : List α) : Prop where
  ascending : sorted.Pairwise fun a b => key a ≤ key b
  stable : ∀ k, sorted.filter (fun a => key a = k) = source.filter fun a => key a = k

theorem isStableSort_mergeSort {α : Type} (key : α → Nat) (l : List α) :
    IsStableSort key l (l.mergeSort fun a b => key a ≤ key b) := by
  have htrans : ∀ a b c : α, decide (key a ≤ key b) → decide (key b ≤ key c) →
      decide (key a ≤ key c) := by
    intro a b c hab hbc
    simp only [decide_eq_true_eq] at *
    omega
  have htotal : ∀ a b : α, decide (key a ≤ key b) || decide (key b ≤ key a) := by
    intro a b
    simp only [Bool.or_eq_true, decide_eq_true_eq]
    omega
  constructor
  · exact (List.pairwise_mergeSort htrans htotal l).imp fun h => by simpa using h
  · intro k
    have hpairwise : (l.filter fun a => key a = k).Pairwise fun a b =>
        decide (key a ≤ key b) = true := by
      apply List.pairwise_of_forall_mem_list
      intro a ha b hb
      have ha : key a = k := by simpa using (List.mem_filter.mp ha).2
      have hb : key b = k := by simpa using (List.mem_filter.mp hb).2
      simp [ha, hb]
    have hsub := List.sublist_mergeSort htrans htotal hpairwise List.filter_sublist
    have hfilter := hsub.filter fun a => key a = k
    simp only [List.filter_filter, Bool.and_self] at hfilter
    have hperm := (List.mergeSort_perm l fun a b => key a ≤ key b).filter fun a => key a = k
    exact (hfilter.eq_of_length hperm.length_eq.symm).symm

/-- The attribute `b` has the name and the tokens of `a`, if not their order, and its quotes unless
there were none. -/
structure KeepsTokens (ranking : Option Ranking) (a b : Attribute) : Prop where
  name : b.name = a.name
  value : b.value.isSome = a.value.isSome
  quote : b.quote = a.quote ∨ a.IsUnquoted ∧ b.quote = .quotation
  /-- Classes in quotes are put in the order of the ranking. -/
  sorted : ∀ r ∈ ranking, a.name = className → a.quote ≠ .bare →
    IsStableSort (sortKey r) (words (a.value.getD [])) (words (b.value.getD []))
  same : ranking = none ∨ a.name ≠ className ∨ a.quote = .bare →
    words (b.value.getD []) = words (a.value.getD [])

theorem SameTokens.keepsTokens {a b : Attribute} (h : SameTokens b a) : KeepsTokens none a b where
  name := h.name
  value := h.value
  quote := Or.inl h.quote
  sorted := by simp
  same _ := h.words

theorem LaidAs.keepsTokens {ranking : Option Ranking} {s : Text} {a b : Attribute}
    (ha : IsAttribute s a) (h : LaidAs ranking a b) : KeepsTokens ranking a b where
  name := h.name
  value := h.value
  quote := by
    have hquote := h.quote
    split at hquote
    next hunquoted => exact Or.inr ⟨hunquoted, hquote⟩
    next => exact Or.inl hquote
  sorted := by
    intro r hr hclass _
    rw [h.tokens, Option.mem_def.mp hr, tokensOf, hclass]
    exact isStableSort_mergeSort (sortKey r) _
  same := by
    intro hsame
    rw [h.tokens]
    cases ranking with
    | none => rfl
    | some r =>
      rcases hsame with hnone | hname | hbare
      · simp at hnone
      · simp [tokensOf, hname]
      · -- without quotes there is no token or one, so nothing is put in another order
        cases ha with
        | name => exact tokensOf_noValue (some r) s .bare
        | quoted hname hquote => exact absurd hbare hquote
        | @bare name value hname hne hvalue =>
          have hvisible : ∀ c ∈ value, isBlank c = false :=
            fun c hc => isBlank_eq_false_of_isBareValueChar (hvalue c hc)
          rw [tokensOf_of_notBlank (some r) name .bare hne hvisible]
          exact (words_of_notBlank hne hvisible).symm

/-- However the attributes of a tag with plain blanks are laid out, they are read again as the
attributes they were, each with its tokens. -/
theorem attributesOf_formatAttributes {s r tag attributes gap : Text} {end' : Ending}
    (hrun : tags.run s = some (.opening tag attributes gap end', r))
    (hplain : HasPlainBlanks attributes) (style : AttributeStyle) (measure : Text → Nat)
    (name ending : Text) (depth : Nat) :
    List.Forall₂ (KeepsTokens style.ranking) (attributesOf attributes)
      (attributesOf (formatAttributes style measure name (trim attributes) ending depth)) := by
  obtain ⟨l, rfl⟩ := exists_attributes_of_run hrun
  rw [(attributesOf_flatMap hplain).1]
  rcases formatAttributes_laidAs hplain style measure name ending depth with
    ⟨hkeeps, hlaid⟩ | ⟨-, l', gap', hlaid, hplain', hgap, hall⟩
  · obtain ⟨l', htext, hparsed⟩ := exists_squeezed hplain
    have hplain' : HasPlainBlanks (l'.flatMap SpacedAttribute.text) :=
      htext ▸ hasPlainBlanks_squeeze _
    have hranking : style.ranking = none := Option.isNone_iff_eq_none.mp hkeeps.unranked
    rw [hlaid, ← htext, (attributesOf_flatMap hplain').1, hparsed, hranking,
      List.forall₂_map_left_iff, List.forall₂_map_right_iff, List.forall₂_same]
    exact fun x _ => (sameTokens_squeezed x.parsed).keepsTokens
  · rw [hlaid, attributesOf_append hplain' hgap, List.forall₂_map_left_iff,
      List.forall₂_map_right_iff]
    exact hall.imp fun x y hxy => hxy.keepsTokens x.isAttribute

theorem attributesOf_formatAttributes_ranked :
    tags.run "<p class='z  b a' id=x=1 hidden>".toList =
        some (.opening ['p'] " class='z  b a' id=x=1 hidden".toList [] .plain, []) ∧
      HasPlainBlanks " class='z  b a' id=x=1 hidden".toList ∧
      List.Forall₂ (KeepsTokens (some fun t => if t = ['a'] then some 0 else if t = ['b']
        then some 1 else none)) (attributesOf " class='z  b a' id=x=1 hidden".toList)
        (attributesOf (formatAttributes
          ⟨20, true, some fun t => if t = ['a'] then some 0 else if t = ['b'] then some 1 else none⟩
            List.length ['p']
          (trim " class='z  b a' id=x=1 hidden".toList) ['>'] 3)) := by
  have hrun : tags.run "<p class='z  b a' id=x=1 hidden>".toList =
      some (.opening ['p'] " class='z  b a' id=x=1 hidden".toList [] .plain, []) := by
      decide +kernel
  have hplain : HasPlainBlanks " class='z  b a' id=x=1 hidden".toList := by decide +kernel
  exact ⟨hrun, hplain, attributesOf_formatAttributes hrun hplain
    ⟨20, true,
      some fun t => if t = ['a'] then some 0 else if t = ['b'] then some 1 else none⟩ _ _ _ _⟩

end ErbLayout.Layout
