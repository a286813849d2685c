import ErbLayout.Proofs.Layout.Attributes
import ErbLayout.Proofs.Markup.Squeeze

/-!
The layout of attributes and the blanks in them. Values are laid out by their words and the
attributes apart from each other, so attributes with their blanks squeezed are laid out like the
attributes.
-/

namespace ErbLayout.Layout

open Text Markup

/-- The attributes have the same name and the same quotes, and values with the same words. -/
structure SameTokens (a b : Attribute) : Prop where
  name : a.name = b.name
  quote : a.quote = b.quote
  value : a.value.isSome = b.value.isSome
  words : words (a.value.getD []) = words (b.value.getD [])

namespace SameTokens

variable {a b : Attribute} (h : SameTokens a b)
include h

theorem tokensOf_eq (ranking : Option Ranking) : tokensOf ranking a = tokensOf ranking b := by
  unfold tokensOf
  rw [h.words, h.name]

theorem renderAttribute_eq (ranking : Option Ranking) (ha : ¬ a.IsUnquoted) :
    renderAttribute ranking a = renderAttribute ranking b := by
  have htokens := h.tokensOf_eq ranking
  obtain ⟨name, value, quote⟩ := a
  obtain ⟨name', value', quote'⟩ := b
  obtain ⟨rfl, rfl, hvalue, -⟩ := h
  cases value with
  | none =>
    cases value' with
    | none => rfl
    | some v => simp at hvalue
  | some v =>
    cases value' with
    | none => simp at hvalue
    | some v' =>
      have hquote : quote ≠ .bare := fun hbare => ha ⟨rfl, hbare⟩
      simp [renderAttribute, hquote, htokens]

theorem brokenAttribute_eq (style : AttributeStyle) (measure : Text → Nat) (depth : Nat) :
    brokenAttribute style measure depth a = brokenAttribute style measure depth b := by
  unfold brokenAttribute
  rw [h.tokensOf_eq, h.name, h.quote]

end SameTokens

theorem sameTokens_squeezed (a : Attribute) : SameTokens a.squeezed a := by
  obtain ⟨name, value, quote⟩ := a
  cases value with
  | none => exact ⟨rfl, rfl, rfl, rfl⟩
  | some value => exact ⟨rfl, rfl, rfl, words_squeeze value⟩

theorem renderAttribute_squeezed (ranking : Option Ranking) {s : Text} {a : Attribute}
    (h : IsAttribute s a) :
    renderAttribute ranking a.squeezed = renderAttribute ranking a := by
  by_cases ha : a.squeezed.IsUnquoted
  · cases h with
    | name => rfl
    | quoted hname hquote => exact absurd ha.2 hquote
    | @bare name value hname hne hvalue =>
      have hself : squeeze value = value :=
        squeeze_eq_self fun c hc => isBlank_eq_false_of_isBareValueChar (hvalue c hc)
      simp [renderAttribute, Attribute.squeezed, hself]
  · exact (sameTokens_squeezed a).renderAttribute_eq ranking ha

/-- The layout of attributes sees no more of them than is left when they are squeezed. -/
theorem formatAttributes_squeeze {l : List SpacedAttribute}
    (h : HasPlainBlanks (l.flatMap SpacedAttribute.text)) (style : AttributeStyle)
    (measure : Text → Nat) (name ending : Text) (depth : Nat) :
    formatAttributes style measure name (trim (squeeze (l.flatMap SpacedAttribute.text)))
      ending depth =
      formatAttributes style measure name (trim (l.flatMap SpacedAttribute.text)) ending depth := by
  obtain ⟨l', htext, hparsed⟩ := exists_squeezed h
  have hplain : HasPlainBlanks (l'.flatMap SpacedAttribute.text) := htext ▸ hasPlainBlanks_squeeze _
  have hlist : attributesOf (trim (l'.flatMap SpacedAttribute.text)) =
      (attributesOf (trim (l.flatMap SpacedAttribute.text))).map Attribute.squeezed := by
    rw [(attributesOf_flatMap hplain).2, (attributesOf_flatMap h).2, hparsed, List.map_map]
    rfl
  have hread : ∀ a ∈ attributesOf (trim (l.flatMap SpacedAttribute.text)), ∃ s,
      IsAttribute s a := by
    intro a ha
    rw [(attributesOf_flatMap h).2] at ha
    obtain ⟨x, -, rfl⟩ := List.mem_map.mp ha
    exact ⟨x.written, x.isAttribute⟩
  cases l with
  | nil => rfl
  | cons x l =>
    obtain ⟨y, l', rfl⟩ : ∃ y m, l' = y :: m := by
      cases l' with
      | nil => simp at hparsed
      | cons y m => exact ⟨y, m, rfl⟩
    have hcollapse : collapse (trim ((y :: l').flatMap SpacedAttribute.text)) =
        collapse (trim ((x :: l).flatMap SpacedAttribute.text)) := by
      have hcons : ' ' :: collapse (trim ((y :: l').flatMap SpacedAttribute.text)) =
          ' ' :: collapse (trim ((x :: l).flatMap SpacedAttribute.text)) := by
        rw [cons_collapse_trim hplain, cons_collapse_trim h, htext, squeeze_squeeze]
      exact (List.cons.inj hcons).2
    rw [← htext]
    unfold formatAttributes
    rw [hcollapse, allBlank_trim_attributes hplain, allBlank_trim_attributes h, hlist]
    generalize attributesOf (trim ((x :: l).flatMap SpacedAttribute.text)) = attributes at hread
    have hany : (attributes.map Attribute.squeezed).any (fun a => a.name == className) =
        attributes.any fun a => a.name == className := by
      rw [List.any_map]
      rfl
    have hrender : ∀ a ∈ attributes, renderAttribute style.ranking a.squeezed =
        renderAttribute style.ranking a := by
      intro a ha
      obtain ⟨s, hs⟩ := hread a ha
      exact renderAttribute_squeezed style.ranking hs
    dsimp only
    rw [hany, List.flatMap_map, List.flatMap_map]
    split
    · rfl
    · split
      · rfl
      · split
        · exact List.flatMap_congr fun a ha => by rw [hrender a ha]
        · congr 1
          apply List.flatMap_congr
          intro a ha
          rw [hrender a ha, (sameTokens_squeezed a).brokenAttribute_eq]
          rfl

end ErbLayout.Layout
