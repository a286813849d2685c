import ErbLayout.Proofs.Layout.OpeningTag
import ErbLayout.Proofs.Layout.Squeeze
import ErbLayout.Proofs.Text.Pieces

/-!
Tidy lines: none ends with a blank, and no two empty ones follow each other. A tidy text stays tidy
when something visible is put after it, on its last line or on a new one, whatever the indentation.
A tag is put together in that way, so it is tidy: its name and the names of its attributes hold no
line feed, the words of a value hold none either, and a value without quotes has no blanks.
-/

namespace ErbLayout

open Text Markup Layout

section Lines

/-- The lines of a text, without the line feeds between them. -/
def Text.textLines (s : Text) : List Text := splitAt (· == '\n') s

/-- No line ends with a blank, and of two lines that follow each other one is not empty. -/
structure TidyLines (lines : List Text) : Prop where
  ends : ∀ line ∈ lines, endsBlank line = false
  apart : lines.IsChain fun a b => a ≠ [] ∨ b ≠ []

def IsTidy (s : Text) : Prop := TidyLines (textLines s)

namespace TidyLines

variable {before after : List Text}

theorem left (h : TidyLines (before ++ after)) : TidyLines before where
  ends line hline := h.ends line (List.mem_append_left after hline)
  apart := (List.isChain_append.mp h.apart).1

/-- The first of the later lines is not empty, so it may follow any line, and something may be put
before it. -/
theorem append {first : Text} (hbefore : TidyLines before) (hafter : TidyLines (first :: after))
    (hne : first ≠ []) (lead : Text) : TidyLines (before ++ (lead ++ first) :: after) where
  ends line hline := by
    rcases List.mem_append.mp hline with hline | hline
    · exact hbefore.ends line hline
    · rcases List.mem_cons.mp hline with rfl | hline
      · rw [endsBlank_append _ hne]
        exact hafter.ends first List.mem_cons_self
      · exact hafter.ends line (List.mem_cons_of_mem first hline)
  apart := by
    have hlead : lead ++ first ≠ [] := List.append_ne_nil_of_right_ne_nil lead hne
    have htail := (List.isChain_cons.mp hafter.apart).2
    refine List.isChain_append.mpr ⟨hbefore.apart,
      List.isChain_cons.mpr ⟨fun _ _ => Or.inl hlead, htail⟩, ?_⟩
    intro a _ b hb
    obtain rfl := Option.some.inj hb
    exact Or.inr hlead

end TidyLines

theorem join_textLines (s : Text) : join ['\n'] (textLines s) = s := join_splitAt '\n' s

/-- A last line that is not empty is the end of the text. -/
theorem endsBlank_of_textLines {s last : Text} {before : List Text}
    (h : textLines s = before ++ [last]) (hlast : last ≠ []) :
    endsBlank s = endsBlank last := by
  rw [← join_textLines s, h]
  by_cases hnil : before = []
  · subst hnil
    rfl
  · rw [join_concat _ _ hnil, endsBlank_append _ hlast]

/-- An empty last line follows a line feed, unless it is the only one. -/
theorem eq_of_textLines_concat_nil {s : Text} {before : List Text}
    (h : textLines s = before ++ [[]]) :
    s = [] ∧ before = [] ∨ ∃ u, s = u ++ ['\n'] ∧ textLines u = before := by
  have hjoin := join_textLines s
  rw [h] at hjoin
  by_cases hnil : before = []
  · subst hnil
    exact Or.inl ⟨hjoin.symm, rfl⟩
  · rw [join_concat _ _ hnil, List.append_nil] at hjoin
    refine Or.inr ⟨join ['\n'] before, hjoin.symm, splitAt_join hnil fun t ht => ?_⟩
    have hline : t ∈ textLines s := h ▸ List.mem_append_left _ ht
    exact notMem_of_mem_splitAt hline

theorem isTidy_of_notMem {s : Text} (hfeed : '\n' ∉ s) (hend : endsBlank s = false) : IsTidy s := by
  rw [IsTidy, textLines, splitAt_of_notMem hfeed]
  exact ⟨by simpa using hend, List.isChain_singleton s⟩

theorem isTidy_of_notBlank {s : Text} (hs : ∀ c ∈ s, isBlank c = false) : IsTidy s := by
  apply isTidy_of_notMem (lineFeed_notMem_of_notBlank hs)
  by_cases hnil : s = []
  · rw [hnil]
    rfl
  · exact (isVisible_of_notBlank hnil hs).ends

theorem isTidy_nil : IsTidy [] := isTidy_of_notBlank (by simp)

namespace IsTidy

variable {s t : Text}

theorem exists_textLines_cons (ht : IsTidy t) (hvisible : IsVisible t) :
    ∃ first after, textLines t = first :: after ∧ first ≠ [] ∧ TidyLines (first :: after) := by
  obtain ⟨c, u, rfl⟩ := List.exists_cons_of_ne_nil hvisible.ne_nil
  have hc : c ≠ '\n' := by
    rintro rfl
    have hstart := hvisible.starts
    rw [startsBlank_cons] at hstart
    exact absurd hstart (by decide)
  obtain ⟨piece, after, hlines⟩ := splitAt_cons_of_ne hc u
  exact ⟨c :: piece, after, hlines, List.cons_ne_nil c piece, hlines ▸ ht⟩

theorem append (hs : IsTidy s) (ht : IsTidy t) (hvisible : IsVisible t) : IsTidy (s ++ t) := by
  obtain ⟨first, after, hlines, hne, htidy⟩ := ht.exists_textLines_cons hvisible
  obtain ⟨before, last, hbefore⟩ :=
    (List.eq_nil_or_concat (textLines s)).resolve_left (splitAt_ne_nil '\n' s)
  rw [List.concat_eq_append] at hbefore
  rw [IsTidy, hbefore] at hs
  rw [IsTidy, textLines, splitAt_append hbefore hlines]
  exact hs.left.append htidy hne last

theorem newLine (hs : IsTidy s) (ht : IsTidy t) (hvisible : IsVisible t) (depth : Nat) :
    IsTidy (s ++ '\n' :: (indentation depth ++ t)) := by
  obtain ⟨first, after, hlines, hne, htidy⟩ := ht.exists_textLines_cons hvisible
  have hindented : textLines (indentation depth ++ t) = (indentation depth ++ first) :: after := by
    have hspaces : splitAt (· == '\n') (indentation depth) = [] ++ [indentation depth] :=
      splitAt_of_notMem (by simp [indentation])
    exact splitAt_append hspaces hlines
  rw [IsTidy, textLines, splitAt_append_cons]
  change TidyLines (textLines s ++ textLines (indentation depth ++ t))
  rw [hindented]
  exact TidyLines.append hs htidy hne _

/-- An empty line may follow a line that is not empty. -/
theorem emptyLine (hs : IsTidy s) (hne : s ≠ []) (hend : endsBlank s = false) :
    IsTidy (s ++ ['\n']) := by
  have hlines : textLines (s ++ ['\n']) = textLines s ++ [[]] := splitAt_append_cons '\n' s []
  rw [IsTidy, hlines]
  constructor
  · intro line hline
    rcases List.mem_append.mp hline with hline | hline
    · exact hs.ends line hline
    · rw [List.mem_singleton.mp hline]
      rfl
  · refine List.isChain_append.mpr ⟨hs.apart, List.isChain_singleton [], fun last hlast b _ =>
      Or.inl ?_⟩
    -- an empty last line would leave a line feed at the end of the text
    rintro rfl
    obtain ⟨before, hbefore⟩ := List.getLast?_eq_some_iff.mp hlast
    rcases eq_of_textLines_concat_nil hbefore with ⟨rfl, -⟩ | ⟨u, rfl, -⟩
    · exact hne rfl
    · rw [endsBlank_concat] at hend
      exact absurd hend (by decide)

/-- At most one line feed is at the end of a tidy text, after a line that is not empty. -/
theorem endsBlank_eq_false_or (hs : IsTidy s) :
    endsBlank s = false ∨ ∃ u, s = u ++ ['\n'] ∧ IsTidy u ∧ endsBlank u = false := by
  obtain ⟨before, last, hlines⟩ := (List.eq_nil_or_concat (textLines s)).resolve_left
    (splitAt_ne_nil '\n' s)
  rw [List.concat_eq_append] at hlines
  rw [IsTidy, hlines] at hs
  by_cases hlast : last = []
  · subst hlast
    rcases eq_of_textLines_concat_nil hlines with ⟨rfl, -⟩ | ⟨u, rfl, rfl⟩
    · exact Or.inl rfl
    · obtain ⟨above, line, habove⟩ :=
        (List.eq_nil_or_concat (textLines u)).resolve_left (splitAt_ne_nil '\n' u)
      rw [List.concat_eq_append] at habove
      have hline : line ≠ [] := by
        have hapart := (List.isChain_append.mp hs.apart).2.2 line (by rw [habove]; simp) [] rfl
        simpa using hapart
      refine Or.inr ⟨u, rfl, hs.left, ?_⟩
      rw [endsBlank_of_textLines habove hline]
      exact hs.left.ends line (by rw [habove]; simp)
  · left
    rw [endsBlank_of_textLines hlines hlast]
    exact hs.ends last (by simp)

theorem trimEnd (hs : IsTidy s) : IsTidy (trimEnd s) := by
  rcases hs.endsBlank_eq_false_or with hend | ⟨u, rfl, hu, hend⟩
  · rwa [trimEnd_eq_self hend]
  · have hfeed : ∀ c ∈ ['\n'], isBlank c := by simp; decide
    rwa [trimEnd_append_blank u hfeed, trimEnd_eq_self hend]

theorem onNewLine {line : Text} (hs : IsTidy s) (hfeed : '\n' ∉ line)
    (hshown : allBlank line = false) (depth : Nat) :
    IsTidy (s ++ onNewLine depth line) := by
  have hvisible := isVisible_trim hshown
  have hfeed' : '\n' ∉ trim line := fun hmem => hfeed ((trim_isInfix line).subset hmem)
  exact hs.newLine (isTidy_of_notMem hfeed' hvisible.ends) hvisible depth

theorem flatMap_onNewLine {lines : List Text} (hs : IsTidy s)
    (hlines : ∀ line ∈ lines, '\n' ∉ line ∧ allBlank line = false) (depth : Nat) :
    IsTidy (s ++ lines.flatMap (Layout.onNewLine depth)) := by
  induction lines generalizing s with
  | nil => simpa using hs
  | cons line lines ih =>
    obtain ⟨hfeed, hshown⟩ := hlines line List.mem_cons_self
    rw [List.flatMap_cons, ← List.append_assoc]
    exact ih (hs.onNewLine hfeed hshown depth) fun l hl => hlines l (List.mem_cons_of_mem line hl)

end IsTidy

end Lines

section Words

/-- The lines that words are packed onto are lines that show something. -/
theorem of_mem_pack {measure : Text → Nat} {firstWidth width tail : Nat} {ws : List Text}
    (hws : ∀ w ∈ ws, w ≠ [] ∧ ∀ c ∈ w, isBlank c = false) {line : Text}
    (hline : line ∈ pack measure firstWidth width tail ws) : '\n' ∉ line ∧ IsVisible line := by
  refine ⟨?_, (packed_lines measure firstWidth width tail hws).2 line hline⟩
  obtain ⟨groups, hpack, hflat, -⟩ := exists_groups_pack measure firstWidth width tail fun w hw =>
    (hws w hw).1
  rw [hpack] at hline
  obtain ⟨group, hgroup, rfl⟩ := List.mem_map.mp hline
  apply lineFeed_notMem_join
  intro w hw
  exact (hws w (hflat ▸ List.mem_flatten.mpr ⟨group, hgroup, hw⟩)).2

end Words

section Attributes

/-- The attribute can be put on one line, and shows something there. -/
structure Markup.Attribute.IsOneLine (a : Attribute) : Prop where
  name : '\n' ∉ a.name
  bare : a.quote = .bare → ∀ v ∈ a.value, '\n' ∉ v
  shown : a.value = none → allBlank a.name = false

theorem isOneLine_ofText_of_isSome {s : Text} {a : Attribute} (h : IsAttribute s a)
    (hvalue : a.value.isSome) :
    (Attribute.ofText s).IsOneLine := by
  have hname : ∀ {name : Text}, IsAttributeName name → '\n' ∉ trimStart name := fun hname hmem =>
    absurd (hname.chars _ ((List.dropWhile_suffix isBlank).subset hmem)) (by decide)
  rw [h.ofText_of_isSome hvalue]
  cases h with
  | name => simp at hvalue
  | quoted hisName hquote => exact ⟨hname hisName, fun hbare => absurd hbare hquote, by simp⟩
  | bare hisName _ hchars =>
    refine ⟨hname hisName, fun _ v hv => ?_, by simp⟩
    obtain rfl := Option.some.inj hv
    exact lineFeed_notMem_of_notBlank fun c hc => isBlank_eq_false_of_isBareValueChar (hchars c hc)

/-- A stretch of text without blanks is one line, wherever it is cut. -/
theorem isOneLine_ofText_of_notBlank {s : Text} (hne : s ≠ []) (hs : ∀ c ∈ s, isBlank c = false) :
    (Attribute.ofText s).IsOneLine := by
  have hfeed := lineFeed_notMem_of_notBlank hs
  have hvisible := isVisible_of_notBlank hne hs
  have hwhole : Attribute.IsOneLine ⟨s, none, .bare⟩ :=
    ⟨hfeed, by simp, fun _ => hvisible.allBlank_eq_false⟩
  unfold Attribute.ofText
  simp only [hvisible.trim_eq]
  split
  · exact hwhole
  next name value hcut =>
    have hparts := append_of_cutFirst? hcut
    have hname : '\n' ∉ name := fun hmem =>
      hfeed (by rw [hparts]; exact List.mem_append_left _ hmem)
    have hvalue : '\n' ∉ value := fun hmem =>
      hfeed (by rw [hparts]; exact List.mem_append_right _ (List.mem_cons_of_mem _ hmem))
    split
    · exact ⟨hname, fun _ v hv => Option.some.inj hv ▸ hvalue, by simp⟩
    · split
      · refine ⟨hname, fun hbare => ?_, by simp⟩
        dsimp only at hbare
        split at hbare <;> simp at hbare
      · exact hwhole

theorem isOneLine_of_mem_attributesOf {s : Text} {a : Attribute} (h : a ∈ attributesOf s) :
    a.IsOneLine := by
  obtain ⟨⟨between, written⟩, hx, rfl⟩ := List.mem_map.mp h
  obtain ⟨v, r, hrun⟩ := Recogniser.exists_run_of_mem_split hx
  change attribute? v = some (written, r) at hrun
  rcases Option.or_eq_some_iff.mp hrun with hvalued | ⟨-, hbare⟩
  · obtain ⟨a, ha, hvalue⟩ := isAttribute_of_valuedAttribute? hvalued
    exact isOneLine_ofText_of_isSome ha hvalue
  · unfold bareValue? at hbare
    dsimp only at hbare
    split at hbare
    · simp at hbare
    next hne =>
      obtain ⟨rfl, -⟩ := Prod.mk.inj (Option.some.inj hbare)
      apply isOneLine_ofText_of_notBlank (by simpa using hne)
      exact fun c hc => isBlank_eq_false_of_isBareValueChar (mem_spanOf hc)

theorem isBlank_eq_false_of_mem_quote {quote : Quote} : ∀ c ∈ quote.written, isBlank c = false := by
  cases quote <;> simp [Quote.written] <;> decide

namespace Markup.Attribute.IsOneLine

variable {a : Attribute} (h : a.IsOneLine)
include h

theorem lineFeed_notMem_render (ranking : Option Ranking) : '\n' ∉ renderAttribute ranking a := by
  have hquote : '\n' ∉ a.quote.written := lineFeed_notMem_of_notBlank isBlank_eq_false_of_mem_quote
  have htokens : '\n' ∉ join [' '] (tokensOf ranking a) :=
    lineFeed_notMem_join fun w hw c hc => ((of_mem_tokensOf hw).2 c hc).2
  unfold renderAttribute
  cases hvalue : a.value with
  | none => exact h.name
  | some value =>
    have hcontent : '\n' ∉ if a.quote = .bare then value else join [' '] (tokensOf ranking a) := by
      split
      next hbare => exact h.bare hbare value hvalue
      next => exact htokens
    simp only [List.mem_append, List.mem_cons, not_or]
    exact ⟨h.name, by decide, ⟨hquote, hcontent⟩, hquote⟩

theorem allBlank_render (ranking : Option Ranking) :
    allBlank (renderAttribute ranking a) = false := by
  unfold renderAttribute
  cases hvalue : a.value with
  | none => exact h.shown hvalue
  | some value =>
    have heq : isBlank '=' = false := by decide
    simp [allBlank, heq]

end Markup.Attribute.IsOneLine

/-- The lines of a value that is broken show something each. -/
theorem of_mem_brokenLines {style : AttributeStyle} {measure : Text → Nat} {a : Attribute}
    {room : Nat} {packs : Bool} {line : Text}
    (hline : line ∈ if packs then pack measure room room 0 (tokensOf style.ranking a)
      else tokensOf style.ranking a) :
    '\n' ∉ line ∧ allBlank line = false := by
  have hwords : ∀ w ∈ tokensOf style.ranking a, w ≠ [] ∧ ∀ c ∈ w, isBlank c = false := fun w hw =>
    ⟨(of_mem_tokensOf hw).1, fun c hc => ((of_mem_tokensOf hw).2 c hc).2⟩
  split at hline
  · obtain ⟨hfeed, hvisible⟩ := of_mem_pack hwords hline
    exact ⟨hfeed, hvisible.allBlank_eq_false⟩
  · obtain ⟨hne, hblank⟩ := hwords line hline
    exact ⟨lineFeed_notMem_of_notBlank hblank, (isVisible_of_notBlank hne hblank).allBlank_eq_false⟩

theorem IsTidy.laidAttribute {s : Text} (hs : IsTidy s) {a : Attribute} (ha : a.IsOneLine)
    (style : AttributeStyle) (measure : Text → Nat) (depth : Nat) :
    IsTidy (s ++ laidAttribute style measure depth a) := by
  unfold Layout.laidAttribute
  split
  · have hquote : IsVisible a.quote.written :=
      isVisible_of_notBlank (by cases a.quote <;> simp [Quote.written])
        isBlank_eq_false_of_mem_quote
    have hfirst : '\n' ∉ a.name ++ '=' :: a.quote.written := by
      simp [ha.name, lineFeed_notMem_of_notBlank isBlank_eq_false_of_mem_quote]
    have hshown : allBlank (a.name ++ '=' :: a.quote.written) = false := by
      have heq : isBlank '=' = false := by decide
      simp [allBlank, heq]
    unfold brokenAttribute
    dsimp only
    rw [← List.append_assoc, ← List.append_assoc]
    refine IsTidy.append ?_ (isTidy_of_notBlank isBlank_eq_false_of_mem_quote) hquote
    exact (hs.onNewLine hfirst hshown depth).flatMap_onNewLine
      (fun line hline => of_mem_brokenLines hline) (depth + 1)
  · exact hs.onNewLine (ha.lineFeed_notMem_render _) (ha.allBlank_render _) depth

theorem IsTidy.flatMap_laidAttribute {s : Text} (hs : IsTidy s) {l : List Attribute}
    (hl : ∀ a ∈ l, a.IsOneLine) (style : AttributeStyle) (measure : Text → Nat) (depth : Nat) :
    IsTidy (s ++ l.flatMap (Layout.laidAttribute style measure depth)) := by
  induction l generalizing s with
  | nil => simpa using hs
  | cons a l ih =>
    rw [List.flatMap_cons, ← List.append_assoc]
    exact ih (hs.laidAttribute (hl a List.mem_cons_self) style measure depth) fun b hb =>
      hl b (List.mem_cons_of_mem a hb)

end Attributes

section Tags

/-- Attributes that are not on lines of their own are on the line of the tag. -/
theorem lineFeed_notMem_formatAttributes {style : AttributeStyle} {measure : Text → Nat}
    {name attributes ending : Text} {depth : Nat} (hvisible : allBlank attributes = false)
    (hfits : measure ('<' :: (name ++ ' ' :: (collapse attributes ++ ending))) ≤
      available style.lineWidth depth) :
    '\n' ∉ formatAttributes style measure name attributes ending depth := by
  rw [formatAttributes_of_narrow hvisible hfits]
  split
  · have hwords : '\n' ∉ collapse attributes := lineFeed_notMem_join fun w hw c hc =>
      ((of_mem_words hw).2 c hc).2
    simp [hwords]
  · intro hmem
    obtain ⟨a, ha, hmem⟩ := List.mem_flatMap.mp hmem
    rcases List.mem_cons.mp hmem with hmem | hmem
    · exact absurd hmem (by decide)
    · exact (isOneLine_of_mem_attributesOf ha).lineFeed_notMem_render _ hmem

theorem isBlank_eq_false_of_mem_ending {ending : Ending} :
    ∀ c ∈ ending.written, isBlank c = false := by
  cases ending <;> simp [Ending.written] <;> decide

theorem isVisible_ending (ending : Ending) : IsVisible ending.written :=
  isVisible_of_notBlank (by cases ending <;> simp [Ending.written]) isBlank_eq_false_of_mem_ending

variable {name : Text} (hname : isTagName name)
include hname

theorem isBlank_eq_false_of_mem_opening : ∀ c ∈ '<' :: name, isBlank c = false := by
  intro c hc
  rcases List.mem_cons.mp hc with rfl | hc
  · decide
  · exact isBlank_eq_false_of_isTagNameChar ((isTagName_iff.mp hname).2 c hc)

theorem isTidy_laidTag_of_oneLine {style : AttributeStyle} {measure : Text → Nat}
    {attributes : Text} {ending : Ending} {depth : Nat}
    (hline : '\n' ∉ formatAttributes style measure name (trim attributes) ending.written depth) :
    IsTidy (laidTag style measure name attributes ending depth) := by
  have hopening := lineFeed_notMem_of_notBlank (isBlank_eq_false_of_mem_opening hname)
  have hending : '\n' ∉ ending.written := lineFeed_notMem_of_notBlank isBlank_eq_false_of_mem_ending
  rw [laidTag, ← List.cons_append, ← List.cons_append]
  apply isTidy_of_notMem
  · simp only [List.mem_append, not_or]
    exact ⟨⟨hopening, hline⟩, hending⟩
  · exact (isVisible_ending ending).endsBlank_append _

/-- An opening tag is tidy, on one line or with every attribute on a line of its own. -/
theorem isTidy_laidTag (style : AttributeStyle) (measure : Text → Nat) (attributes : Text)
    (ending : Ending) (depth : Nat) :
    IsTidy (laidTag style measure name attributes ending depth) := by
  cases hvisible : allBlank (trim attributes) with
  | true =>
    apply isTidy_laidTag_of_oneLine hname
    rw [formatAttributes, if_pos hvisible]
    exact List.not_mem_nil
  | false =>
    by_cases hfits : measure
      ('<' :: (name ++ ' ' :: (collapse (trim attributes) ++ ending.written))) ≤
        available style.lineWidth depth
    · exact isTidy_laidTag_of_oneLine hname (lineFeed_notMem_formatAttributes hvisible hfits)
    · have hopening := isTidy_of_notBlank (isBlank_eq_false_of_mem_opening hname)
      have hlist : ∀ a ∈ attributesOf (trim attributes), a.IsOneLine :=
        fun a => isOneLine_of_mem_attributesOf
      have hattributes := hopening.flatMap_laidAttribute hlist style measure (depth + 1)
      have htag := hattributes.newLine (isTidy_of_notBlank isBlank_eq_false_of_mem_ending)
        (isVisible_ending ending) depth
      rw [laidTag, formatAttributes_of_wide hvisible (Nat.not_le.mp hfits)]
      simpa [onNewLine, trim, trimStart, trimEnd] using htag

end Tags

end ErbLayout
