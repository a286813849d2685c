import ErbLayout.Layout.Attributes
import ErbLayout.Proofs.Layout.Content
import ErbLayout.Proofs.Markup.Attribute
import Mathlib.Data.List.Basic

/-!
What the layout of attributes keeps. However the attributes of a tag are laid out, on one line or on
lines of their own, with or without their lists of tokens broken, their content stays; only a value
without quotes gets quotation marks. No order of classes is given here, since putting classes in
order moves them.
-/

namespace ErbLayout.Layout

open Text Markup

/-- Content does not see the quotation marks that a value without quotes gets. -/
def QuotesUnseen (content : Text → Text) (a : Attribute) : Prop :=
  a.value.isSome → a.quote = .bare → content ['"'] = []

theorem tokensOf_none (a : Attribute) : tokensOf none a = words (a.value.getD []) := rfl

theorem isMarkerChar_of_written {quote : Quote} {q : Char} (hq : quote.written = [q]) :
    isMarkerChar q = false := by
  cases quote with
  | apostrophe =>
    obtain rfl : '\'' = q := by simpa [Quote.written] using hq
    decide
  | quotation =>
    obtain rfl : '"' = q := by simpa [Quote.written] using hq
    decide
  | bare =>
    obtain rfl : '"' = q := by simpa [Quote.written] using hq
    decide

theorem startsApart_text (x : SpacedAttribute) : StartsApart x.text := by
  intro c hc
  obtain ⟨d, b, hb⟩ := List.exists_cons_of_ne_nil x.ne_nil
  obtain rfl : d = c := by simpa [SpacedAttribute.text, hb] using hc
  exact isMarkerChar_eq_false_of_isBlank (x.blank d (by simp [hb]))

theorem startsApart_brokenAttribute (style : AttributeStyle) (measure : Text → Nat) (depth : Nat)
    (a : Attribute) :
    StartsApart (brokenAttribute style measure depth a) := by
  intro c hc
  obtain rfl : '\n' = c := by simpa [brokenAttribute, onNewLine] using hc
  decide

/-- What stands between the name of a tag and its end begins with a blank, if there is anything. -/
theorem startsApart_formatAttributes (style : AttributeStyle) (measure : Text → Nat)
    (name attributes ending : Text) (depth : Nat) :
    StartsApart (formatAttributes style measure name attributes ending depth) := by
  unfold formatAttributes
  split
  · exact startsApart_nil
  · dsimp only
    split
    · exact startsApart_cons (by decide) _
    · split
      · exact startsApart_flatMap fun a _ => startsApart_cons (by decide) _
      · refine startsApart_append (startsApart_flatMap fun a _ => ?_)
          (startsApart_onNewLine depth [])
        split
        · exact startsApart_brokenAttribute _ _ _ _
        · exact startsApart_onNewLine _ _

namespace IsContent

variable {content : Text → Text} (h : IsContent content)
include h

theorem quoted_eq (name value : Text) {q : Char} (hq : isMarkerChar q = false) :
    content (name ++ '=' :: q :: (value ++ [q])) =
      content name ++ (content ['='] ++ (content [q] ++ (content value ++ content [q]))) := by
  rw [h.cut name '=' _ (by decide), h.cons hq (value ++ [q]),
    h.append_of_startsApart value (startsApart_cons hq [])]

theorem renderAttribute_eq {s : Text} {a : Attribute} (hs : IsAttribute s a)
    (ha : QuotesUnseen content a) :
    content (renderAttribute none a) = content s := by
  cases hs with
  | name => rfl
  | @quoted name value q quote hname hquote hq hvalue =>
    have hline : renderAttribute none ⟨name, some value, quote⟩ =
        name ++ '=' :: q :: (join [' '] (words value) ++ [q]) := by
      simp [renderAttribute, hquote, hq, tokensOf]
    rw [hline, h.quoted_eq _ _ (isMarkerChar_of_written hq),
      h.quoted_eq _ _ (isMarkerChar_of_written hq),
      h.join_eq, h.words_eq]
  | @bare name value hname hne hvalue =>
    have hline : renderAttribute none ⟨name, some value, .bare⟩ = name ++ '=' :: '"' ::
        (value ++ ['"']) := by
      simp [renderAttribute, Quote.written]
    have hunseen : content ['"'] = [] := ha rfl rfl
    rw [hline, h.quoted_eq _ _ (by decide), hunseen, h.cut name '=' value (by decide)]
    simp

theorem brokenAttribute_eq {s : Text} {a : Attribute} (hs : IsAttribute s a) (hlist : a.isTokenList)
    {style : AttributeStyle} (hstyle : style.ranking = none) (measure : Text → Nat) (depth : Nat) :
    content (brokenAttribute style measure depth a) = content s := by
  cases hs with
  | name => simp [Attribute.isTokenList] at hlist
  | bare => simp [Attribute.isTokenList] at hlist
  | @quoted name value q quote hname hquote hq hvalue =>
    have hmark := isMarkerChar_of_written hq
    have hlines : ∀ lines : List Text, content (onNewLine depth (name ++ '=' :: quote.written) ++
        lines.flatMap (onNewLine (depth + 1)) ++ quote.written) =
          content name ++ (content ['='] ++
            (content [q] ++ (lines.flatMap content ++ content [q]))) := by
      intro lines
      have hstart : ∀ line ∈ lines, StartsApart (onNewLine (depth + 1) line) :=
        fun line _ => startsApart_onNewLine (depth + 1) line
      rw [hq, h.append_of_startsApart _ (startsApart_cons hmark []),
        h.append_of_startsApart _ (startsApart_flatMap hstart), h.flatMap_of_startsApart hstart,
        h.onNewLine_eq, h.cut name '=' [q] (by decide)]
      simp only [h.onNewLine_eq, List.append_assoc]
    unfold brokenAttribute
    dsimp only
    rw [hlines, h.quoted_eq _ _ hmark]
    congr 4
    split
    · rw [h.pack_eq, hstyle, tokensOf_none]
      exact h.words_eq value
    · rw [hstyle, tokensOf_none]
      exact h.words_eq value

/-- The content of an attribute list is that of its attributes. -/
theorem attributes_eq (l : List SpacedAttribute) :
    content (l.flatMap SpacedAttribute.text) = l.flatMap fun x => content x.written := by
  rw [h.flatMap_of_startsApart fun x _ => startsApart_text x]
  simp only [SpacedAttribute.text, h.blank_append (SpacedAttribute.blank _)]

/-- Laying out each attribute on its own, apart from the one before it, keeps the content of the
list. -/
theorem flatMap_parsed_eq {f : Attribute → Text} {l : List SpacedAttribute}
    (hstart : ∀ a, StartsApart (f a)) (hf : ∀ x ∈ l, content (f x.parsed) = content x.written) :
    content ((l.map SpacedAttribute.parsed).flatMap f) =
      content (l.flatMap SpacedAttribute.text) := by
  rw [h.flatMap_of_startsApart fun a _ => hstart a, h.attributes_eq, List.flatMap_map]
  exact List.flatMap_congr hf

theorem formatAttributes_eq {l : List SpacedAttribute}
    (hplain : HasPlainBlanks (l.flatMap SpacedAttribute.text))
    (hunseen : ∀ x ∈ l, QuotesUnseen content x.parsed) {style : AttributeStyle}
    (hstyle : style.ranking = none) (measure : Text → Nat) (name ending : Text) (depth : Nat) :
    content (formatAttributes style measure name (trim (l.flatMap SpacedAttribute.text))
      ending depth) = content (l.flatMap SpacedAttribute.text) := by
  have hrender : ∀ x ∈ l, content (renderAttribute none x.parsed) = content x.written :=
    fun x hx => h.renderAttribute_eq x.isAttribute (hunseen x hx)
  unfold formatAttributes
  rw [(attributesOf_flatMap hplain).2, hstyle]
  split
  next hblank =>
    have hnil : content (trim (l.flatMap SpacedAttribute.text)) = [] :=
      h.eq_nil_of_blank (List.all_eq_true.mp hblank)
    rw [h.nil, ← h.trim_eq, hnil]
  next =>
    dsimp only
    -- the text with its blanks collapsed, the attributes on one line, or each on a line of its own
    split
    · rw [h.cons (by decide), h.blank _ (by decide), List.nil_append, h.collapse_eq, h.trim_eq]
    · split
      · apply h.flatMap_parsed_eq
        · exact fun a => startsApart_cons (by decide) _
        · intro x hx
          rw [h.cons (by decide), h.blank _ (by decide), List.nil_append, hrender x hx]
      · rw [h.append_of_startsApart _ (startsApart_onNewLine depth []), h.onNewLine_eq, h.nil,
          List.append_nil]
        apply h.flatMap_parsed_eq
        · intro a
          split
          · exact startsApart_brokenAttribute _ _ _ _
          · exact startsApart_onNewLine _ _
        · intro x hx
          split
          next hlist =>
            obtain ⟨hlist, -⟩ := Bool.and_eq_true_iff.mp hlist
            exact h.brokenAttribute_eq x.isAttribute hlist hstyle measure (depth + 1)
          next => rw [h.onNewLine_eq, hrender x hx]

end IsContent

end ErbLayout.Layout
