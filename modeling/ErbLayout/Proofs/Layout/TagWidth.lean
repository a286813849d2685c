import ErbLayout.Proofs.Layout.OpeningTag
import ErbLayout.Proofs.Layout.Squeeze
import Mathlib.Algebra.GroupWithZero.Nat

/-!
How long the lines of an opening tag are. Whether a tag stays on one line is decided on its
attributes as they are written, with their blanks collapsed; when there is a class or a ranking,
each attribute is then put out anew, with quotes around a value that had none and without the blanks
next to the quotes. So the line may be longer or shorter than the one that was measured, by as many
characters as are counted here. The tokens of a class that is too long for a line are packed for the
room there is without the closing quote, so the last of their lines may be one character too long.
-/

namespace ErbLayout.Text

theorem exists_length_squeeze (s : Text) : ∃ n, (squeeze s).length = (collapse s).length + n := by
  obtain ⟨r, hr, -⟩ := exists_trimEnd_append s
  have hend := endsBlank_trimEnd s
  have hcollapse : collapse (trimEnd s) = collapse s := by rw [collapse, words_trimEnd, collapse]
  refine ⟨(if startsBlank (trimEnd s) then [' '] else []).length + (squeeze r).length, ?_⟩
  rw [hr, squeeze_append (Or.inl hend), squeeze_eq_collapse hend, hcollapse, ← hr]
  simp only [List.length_append]
  omega

end ErbLayout.Text

namespace ErbLayout.Layout

open Text Markup

section OneLine

/-- An opening tag with its attributes as they are written, except that every stretch of blanks is a
space. -/
def collapsedTag (name attributes ending : Text) : Text :=
  '<' :: (name ++ ' ' :: (collapse attributes ++ ending))

def laidLength (a : Attribute) : Nat :=
  match a.value with
  | none => a.name.length
  | some value => a.name.length + (if a.quote = .bare then value else collapse value).length + 3

def addedQuotes (l : List Attribute) : Nat := (l.map fun a => if a.IsUnquoted then 2 else 0).sum

def droppedBlanks (l : List Attribute) : Nat :=
  (l.map fun a => (squeeze (a.value.getD [])).length - (collapse (a.value.getD [])).length).sum

/-- Attributes that are put out on one line are kept as they are written, or each is put out
anew. -/
theorem formatAttributes_of_oneLine {style : AttributeStyle} {measure : Text → Nat}
    {name attributes ending : Text} {depth : Nat}
    (hne : formatAttributes style measure name attributes ending depth ≠ [])
    (hline : '\n' ∉ formatAttributes style measure name attributes ending depth) :
    measure (collapsedTag name attributes ending) ≤ available style.lineWidth depth ∧
      formatAttributes style measure name attributes ending depth =
        if KeepsLine style measure name attributes ending depth then ' ' :: collapse attributes
        else (attributesOf attributes).flatMap fun a => ' ' :: renderAttribute style.ranking a := by
  have hvisible : allBlank attributes = false := by
    by_contra hblank
    apply hne
    rw [formatAttributes, if_pos (by simpa using hblank)]
  have hfits : measure (collapsedTag name attributes ending) ≤ available style.lineWidth depth := by
    by_contra hwide
    apply hline
    rw [formatAttributes_of_wide hvisible (Nat.not_le.mp hwide)]
    exact List.mem_append_right _ List.mem_cons_self
  exact ⟨hfits, formatAttributes_of_narrow hvisible hfits⟩

theorem length_join_tokensOf (ranking : Option Ranking) (a : Attribute) :
    (join [' '] (tokensOf ranking a)).length = (collapse (a.value.getD [])).length := by
  have hperm : (tokensOf ranking a).Perm (words (a.value.getD [])) := by
    unfold tokensOf
    cases ranking with
    | none => exact List.Perm.refl _
    | some ranking =>
      dsimp only
      split
      · exact List.mergeSort_perm _ _
      · exact List.Perm.refl _
  rw [collapse, length_join, length_join, columns, columns, (hperm.map _).sum_nat, hperm.length_eq]

theorem length_renderAttribute (ranking : Option Ranking) (a : Attribute) :
    (renderAttribute ranking a).length = laidLength a := by
  have hquote : a.quote.written.length = 1 := by cases a.quote <;> rfl
  have htokens := length_join_tokensOf ranking a
  unfold renderAttribute laidLength
  cases hvalue : a.value with
  | none => rfl
  | some value =>
    rw [hvalue, Option.getD_some] at htokens
    simp only [List.length_append, List.length_cons, hquote]
    split
    · omega
    · rw [htokens]
      omega

theorem length_flatMap_renderAttribute (ranking : Option Ranking) (l : List Attribute) :
    (l.flatMap fun a => ' ' :: renderAttribute ranking a).length =
      (l.map fun a => laidLength a + 1).sum := by
  simp only [List.length_flatMap, List.length_cons, length_renderAttribute]

/-- An attribute on one line has the characters it is written with, besides quotes and the blanks
next to them. -/
theorem laidLength_of_isAttribute {s : Text} {a : Attribute} (h : IsAttribute s a)
    (hs : HasPlainBlanks s) :
    laidLength a + droppedBlanks [a] = (squeeze s).length + addedQuotes [a] := by
  have hdrop : droppedBlanks [a] + (collapse (a.value.getD [])).length =
      (squeeze (a.value.getD [])).length := by
    obtain ⟨n, hn⟩ := exists_length_squeeze (a.value.getD [])
    simp [droppedBlanks, hn, Nat.add_comm]
  cases h with
  | name hname =>
    have hself : squeeze s = s := squeeze_eq_self fun c hc =>
      hs.isBlank_eq_false hc (hname.chars c hc)
    rw [hself]
    simp [laidLength, droppedBlanks, addedQuotes, Attribute.IsUnquoted, squeeze]
  | @quoted name value q quote hname hquote hq hvalue =>
    have hname' : HasPlainBlanks name := hs.of_isInfix (List.prefix_append _ _).isInfix
    have hadded : addedQuotes [⟨name, some value, quote⟩] = 0 := by
      simp [addedQuotes, Attribute.IsUnquoted, hquote]
    rw [squeeze_quoted hname hname' hquote hq, hadded]
    simp only [laidLength, hquote, if_false, List.length_append, List.length_cons, List.length_nil]
    simp only [Option.getD_some] at hdrop
    omega
  | @bare name value hname hne hvalue =>
    have hname' : HasPlainBlanks name := hs.of_isInfix (List.prefix_append _ _).isInfix
    have hvisible : ∀ c ∈ value, isBlank c = false :=
      fun c hc => isBlank_eq_false_of_isBareValueChar (hvalue c hc)
    have hcollapse : collapse value = value := by
      rw [collapse, words_of_notBlank hne hvisible]
      rfl
    have hadded : addedQuotes [⟨name, some value, .bare⟩] = 2 := by
      simp [addedQuotes, Attribute.IsUnquoted]
    rw [hname.squeeze_append hname', hadded]
    simp only [Option.getD_some, hcollapse, squeeze_eq_self hvisible] at hdrop ⊢
    simp only [laidLength, if_true, List.length_append, List.length_cons]
    omega

theorem sum_laidLength {l : List SpacedAttribute}
    (h : HasPlainBlanks (l.flatMap SpacedAttribute.text)) :
    ((l.map SpacedAttribute.parsed).map fun a => laidLength a + 1).sum +
      droppedBlanks (l.map SpacedAttribute.parsed) =
      (squeeze (l.flatMap SpacedAttribute.text)).length +
        addedQuotes (l.map SpacedAttribute.parsed) := by
  rw [squeeze_flatMap h]
  have hwritten : ∀ x ∈ l, HasPlainBlanks x.written := fun x hx => SpacedAttribute.plain_of_mem hx h
  clear h
  induction l with
  | nil => rfl
  | cons x l ih =>
    have hfirst := laidLength_of_isAttribute x.isAttribute (hwritten x List.mem_cons_self)
    have hrest := ih fun y hy => hwritten y (List.mem_cons_of_mem x hy)
    simp only [droppedBlanks, addedQuotes, List.map_cons, List.map_nil, List.sum_cons, List.sum_nil,
      List.flatMap_cons, List.length_append, List.length_cons] at hfirst hrest ⊢
    omega

/-- A tag that is put out on one line was measured with its blanks collapsed, and so it fits. It is
put out as it was measured if its attributes are kept. If they are put out anew, it fits when the
attributes have the room that they take with quotes, whatever their order: with plain blanks, unless
the quotes that are added take more than the room left and the blanks that are dropped. -/
theorem oneLine_tag_fits_iff {s r tag attributes gap : Text} {end' : Ending}
    (hrun : tags.run s = some (.opening tag attributes gap end', r)) (style : AttributeStyle)
    (name ending : Text) (depth : Nat)
    (hne : formatAttributes style List.length name (trim attributes) ending depth ≠ [])
    (hline : '\n' ∉ formatAttributes style List.length name (trim attributes) ending depth) :
    (collapsedTag name (trim attributes) ending).length ≤ available style.lineWidth depth ∧
      (KeepsLine style List.length name (trim attributes) ending depth →
        '<' :: (name ++ formatAttributes style List.length name (trim attributes) ending
          depth ++ ending) = collapsedTag name (trim attributes) ending) ∧
      (¬ KeepsLine style List.length name (trim attributes) ending depth →
        (('<' :: (name ++ formatAttributes style List.length name (trim attributes) ending depth ++
          ending)).length ≤
            available style.lineWidth depth ↔
          name.length + ((attributesOf (trim attributes)).map fun a => laidLength a + 1).sum +
            ending.length < available style.lineWidth depth) ∧
        (HasPlainBlanks attributes →
          (('<' :: (name ++ formatAttributes style List.length name (trim attributes) ending
            depth ++ ending)).length ≤
              available style.lineWidth depth ↔
            (collapsedTag name (trim attributes) ending).length +
              addedQuotes (attributesOf attributes) ≤
              available style.lineWidth depth + droppedBlanks (attributesOf attributes)))) := by
  obtain ⟨hfits, hlaid⟩ := formatAttributes_of_oneLine hne hline
  refine ⟨hfits, fun hkeeps => ?_, fun hkeeps => ?_⟩
  · rw [hlaid, if_pos hkeeps, collapsedTag]
    simp
  · have hlength : ('<' :: (name ++ formatAttributes style List.length name (trim attributes) ending
      depth ++ ending)).length =
        name.length + ((attributesOf (trim attributes)).map fun a => laidLength a + 1).sum +
        ending.length + 1 := by
      rw [hlaid, if_neg hkeeps, ← length_flatMap_renderAttribute style.ranking]
      simp only [List.length_append, List.length_cons]
    refine ⟨by rw [hlength]; omega, fun hplain => ?_⟩
    obtain ⟨l, rfl⟩ := exists_attributes_of_run hrun
    have hsum := sum_laidLength hplain
    cases l with
    | nil => exact absurd rfl hne
    | cons x l =>
      rw [← cons_collapse_trim hplain] at hsum
      rw [hlength, (attributesOf_flatMap hplain).1, (attributesOf_flatMap hplain).2, collapsedTag]
      simp only [List.length_append, List.length_cons] at hsum ⊢
      omega

theorem oneLine_tag_fits_link :
    tags.run "<a  href=\" /x\"\n class='b  a'>".toList =
        some (.opening ['a'] "  href=\" /x\"\n class='b  a'".toList [] .plain, []) ∧
      '<' :: (['a'] ++ formatAttributes ⟨40, false, none⟩ List.length ['a']
        (trim "  href=\" /x\"\n class='b  a'".toList)
        ['>'] 0 ++ ['>']) = "<a href=\"/x\" class='b a'>".toList ∧
      ("<a href=\"/x\" class='b a'>".toList.length ≤ available 40 0 ↔
        (collapsedTag ['a'] (trim "  href=\" /x\"\n class='b  a'".toList) ['>']).length +
            addedQuotes (attributesOf "  href=\" /x\"\n class='b  a'".toList) ≤
          available 40 0 + droppedBlanks
            (attributesOf "  href=\" /x\"\n class='b  a'".toList)) := by
  have hrun : tags.run "<a  href=\" /x\"\n class='b  a'>".toList =
      some (.opening ['a'] "  href=\" /x\"\n class='b  a'".toList [] .plain, []) := by
      decide +kernel
  have htag : '<' :: (['a'] ++ formatAttributes ⟨40, false, none⟩ List.length ['a']
      (trim "  href=\" /x\"\n class='b  a'".toList) ['>'] 0 ++ ['>']) =
      "<a href=\"/x\" class='b a'>".toList := by
    decide +kernel
  refine ⟨hrun, htag, ?_⟩
  rw [← htag]
  exact ((oneLine_tag_fits_iff hrun ⟨40, false, none⟩ ['a'] ['>'] 0 (by decide +kernel)
    (by decide +kernel)).2.2 (by decide +kernel)).2 (by decide +kernel)

/-- The tag is 36 characters long as it is written and stays on a line of 40; with the quotes it is
42 long. -/
theorem oneLine_tag_overflows :
    tags.run "<input class=x type=text name=query>".toList =
        some (.opening "input".toList " class=x type=text name=query".toList [] .plain, []) ∧
      '<' :: ("input".toList ++ formatAttributes ⟨40, false, none⟩ List.length "input".toList
        (trim " class=x type=text name=query".toList) ['>'] 0 ++ ['>']) =
          "<input class=\"x\" type=\"text\" name=\"query\">".toList ∧
      available 40 0 < "<input class=\"x\" type=\"text\" name=\"query\">".toList.length := by
  decide +kernel

end OneLine

section ClassLines

def tokenLine (depth : Nat) (tokens : List Text) : Text := indentation depth ++ join [' '] tokens

def groupedAttribute (depth : Nat) (a : Attribute) (groups : List (List Text)) : Text :=
  onNewLine depth (a.name ++ '=' :: a.quote.written) ++
    groups.flatMap (fun g => '\n' :: tokenLine (depth + 1) g) ++
    a.quote.written

/-- The tag does not fit on one line, nor does its class on a line of its own. -/
structure BreaksClass (style : AttributeStyle) (measure : Text → Nat)
    (name attributes ending : Text) (depth : Nat) (a : Attribute) : Prop where
  visible : allBlank attributes = false
  wide : available style.lineWidth depth < measure (collapsedTag name attributes ending)
  isClass : a.name = className
  quoted : a.quote ≠ .bare
  long : available style.lineWidth (depth + 1) < measure (renderAttribute style.ranking a)

theorem BreaksClass.laidAttribute_eq {style : AttributeStyle} {measure : Text → Nat}
    {name attributes ending : Text} {depth : Nat} {a : Attribute}
    (h : BreaksClass style measure name attributes ending depth a) :
    laidAttribute style measure (depth + 1) a = brokenAttribute style measure (depth + 1) a := by
  have hlist : a.isTokenList := by
    rw [Attribute.isTokenList, h.isClass]
    simpa using ⟨h.quoted, by decide⟩
  simp [laidAttribute, hlist, h.long]

theorem onNewLine_join (depth : Nat) {g : List Text} (hne : g ≠ []) (hg : ∀ w ∈ g, IsVisible w) :
    onNewLine depth (join [' '] g) = '\n' :: tokenLine depth g := by
  rw [onNewLine, (isVisible_join hne hg).trim_eq, tokenLine]

/-- The tokens of a class broken into lines are packed for the room at the depth of the lines, or
stand on one each. -/
theorem exists_groups_brokenAttribute (style : AttributeStyle) (measure : Text → Nat) (depth : Nat)
    {a : Attribute} (hclass : a.name = className) :
    ∃ groups : List (List Text), brokenAttribute style measure depth a =
      groupedAttribute depth a groups ∧
      groups.flatten = tokensOf style.ranking a ∧ (∀ g ∈ groups, g ≠ []) ∧
      ∀ g ∈ groups, FitsLine measure (available style.lineWidth (depth + 1)) 0 g := by
  have hvisible : ∀ w ∈ tokensOf style.ranking a, IsVisible w := fun w hw =>
    isVisible_of_notBlank (of_mem_tokensOf hw).1 fun c hc => ((of_mem_tokensOf hw).2 c hc).2
  have hgrouped : ∀ groups : List (List Text), groups.flatten = tokensOf style.ranking a →
    (∀ g ∈ groups, g ≠ []) →
      (groups.map (join [' '])).flatMap (onNewLine (depth + 1)) =
        groups.flatMap fun g => '\n' :: tokenLine (depth + 1) g := by
    intro groups hflat hne
    rw [List.flatMap_map]
    apply List.flatMap_congr
    intro g hg
    apply onNewLine_join _ (hne g hg)
    intro w hw
    exact hvisible w (hflat ▸ List.mem_flatten.mpr ⟨g, hg, hw⟩)
  unfold brokenAttribute groupedAttribute
  dsimp only
  cases hsingle : style.singleClassPerLine with
  | false =>
    obtain ⟨groups, hpack, hflat, hne, hfits⟩ :=
      exists_fitLines_pack measure (available style.lineWidth (depth + 1))
      (available style.lineWidth (depth + 1)) 0 fun w hw => (hvisible w hw).ne_nil
    refine ⟨groups, ?_, hflat, hne, fun g hg => hfits.of_mem hg⟩
    rw [if_pos (by simp [hclass]), hpack, hgrouped groups hflat hne]
  | true =>
    have hflat : ((tokensOf style.ranking a).map fun w => [w]).flatten =
        tokensOf style.ranking a := by
      simp [← List.flatMap_def]
    have hne : ∀ g ∈ (tokensOf style.ranking a).map fun w => [w], g ≠ [] := by simp
    refine ⟨(tokensOf style.ranking a).map fun w => [w], ?_, hflat, hne, ?_⟩
    · have hlines : ((tokensOf style.ranking a).map fun w => [w]).map (join [' ']) =
          tokensOf style.ranking a := by
        rw [List.map_map]
        exact List.map_id _
      rw [if_neg (by simp), ← hgrouped _ hflat hne, hlines]
    · intro g hg
      obtain ⟨w, -, rfl⟩ := List.mem_map.mp hg
      exact Or.inl rfl

/-- A class that is broken into lines stands between the other attributes. Its tokens are on lines
that are no longer than the line width unless there is one token on them; the closing quote goes on
the last line and does not fit if that line is full and has several tokens. -/
theorem classLines_fit_iff (style : AttributeStyle) (name ending : Text) (depth : Nat)
    (hroom : leastRoom ≤ style.lineWidth - 2 * (depth + 2)) {attributes : Text}
    {before after : List Attribute} {a : Attribute}
    (hlist : attributesOf attributes = before ++ a :: after)
    (hbreaks : BreaksClass style List.length name attributes ending depth a) :
    ∃ groups : List (List Text),
      formatAttributes style List.length name attributes ending depth =
        before.flatMap (laidAttribute style List.length (depth + 1)) ++ groupedAttribute (depth + 1)
          a groups ++
          (after.flatMap (laidAttribute style List.length (depth + 1)) ++ onNewLine depth []) ∧
      groups.flatten = tokensOf style.ranking a ∧ (∀ g ∈ groups, g ≠ []) ∧
      (∀ g ∈ groups, (tokenLine (depth + 2) g).length ≤ style.lineWidth ∨ g.length = 1) ∧
      ∀ g ∈ groups.getLast?,
        ((tokenLine (depth + 2) g ++ a.quote.written).length ≤ style.lineWidth ∨ g.length = 1 ↔
          (tokenLine (depth + 2) g).length ≠ style.lineWidth ∨ g.length = 1) := by
  obtain ⟨groups, hbroken, hflat, hne, hfits⟩ :=
    exists_groups_brokenAttribute style List.length (depth + 1) hbreaks.isClass
  have hlength : ∀ g, (tokenLine (depth + 2) g).length =
      2 * (depth + 2) + columns List.length g := by
    intro g
    rw [tokenLine, List.length_append, length_join, indentation, List.length_replicate]
  have hlines : ∀ g ∈ groups, (tokenLine (depth + 2) g).length ≤ style.lineWidth ∨
      g.length = 1 := by
    intro g hg
    have hg := hfits g hg
    rw [available, if_neg (Nat.not_lt.mpr hroom), FitsLine] at hg
    rw [hlength]
    rw [leastRoom] at hroom
    omega
  refine ⟨groups, ?_, hflat, hne, hlines, ?_⟩
  · rw [formatAttributes_of_wide hbreaks.visible hbreaks.wide, hlist, List.flatMap_append,
      List.flatMap_cons, hbreaks.laidAttribute_eq, hbroken]
    simp only [List.append_assoc]
  · intro g hg
    have hline := hlines g (List.mem_of_mem_getLast? hg)
    have hquote : a.quote.written.length = 1 := by cases a.quote <;> rfl
    rw [List.length_append, hquote]
    omega

theorem classLines_fit_iff_navigation :
    attributesOf "id=menu class=\"navigation-item is-active has-icon is-wide\"".toList =
        [⟨"id".toList, some "menu".toList, .bare⟩] ++
          [⟨className, some "navigation-item is-active has-icon is-wide".toList, .quotation⟩] ∧
      ∃ groups : List (List Text),
        formatAttributes ⟨44, false, none⟩ List.length "nav".toList
            "id=menu class=\"navigation-item is-active has-icon is-wide\"".toList ['>'] 0 =
          [⟨"id".toList, some "menu".toList, .bare⟩].flatMap
            (laidAttribute ⟨44, false, none⟩ List.length 1) ++
            groupedAttribute 1 ⟨className, some "navigation-item is-active has-icon is-wide".toList,
              .quotation⟩ groups ++
              ([].flatMap (laidAttribute ⟨44, false, none⟩ List.length 1) ++ onNewLine 0 []) ∧
        groups.flatten = words "navigation-item is-active has-icon is-wide".toList ∧
        ∀ g ∈ groups, (tokenLine 2 g).length ≤ 44 ∨ g.length = 1 := by
  have hlist : attributesOf "id=menu class=\"navigation-item is-active has-icon is-wide\"".toList =
      [⟨"id".toList, some "menu".toList, .bare⟩] ++
        [⟨className, some "navigation-item is-active has-icon is-wide".toList, .quotation⟩] := by
        decide +kernel
  have hbreaks : BreaksClass ⟨44, false, none⟩ List.length "nav".toList
      "id=menu class=\"navigation-item is-active has-icon is-wide\"".toList ['>'] 0
      ⟨className, some "navigation-item is-active has-icon is-wide".toList, .quotation⟩ :=
    ⟨by decide +kernel, by decide +kernel, rfl, by decide, by decide +kernel⟩
  obtain ⟨groups, hlaid, hflat, -, hlines, -⟩ :=
    classLines_fit_iff ⟨44, false, none⟩ "nav".toList ['>'] 0 (by decide)
    hlist hbreaks
  exact ⟨hlist, groups, hlaid, hflat, hlines⟩

/-- The two tokens fill a line of 44 characters, and the quote after them is the 45th. -/
theorem classLine_overflows :
    tags.run "<p class=\"alpha-alpha-alpha-1 bravo-bravo-bravo-22\">".toList =
        some (.opening ['p'] " class=\"alpha-alpha-alpha-1 bravo-bravo-bravo-22\"".toList []
          .plain, []) ∧
      formatAttributes ⟨44, false, none⟩ List.length ['p']
          (trim " class=\"alpha-alpha-alpha-1 bravo-bravo-bravo-22\"".toList) ['>'] 0 =
        "\n  class=\"\n    alpha-alpha-alpha-1 bravo-bravo-bravo-22\"\n".toList ∧
      44 < "    alpha-alpha-alpha-1 bravo-bravo-bravo-22\"".toList.length := by
  decide +kernel

end ClassLines

end ErbLayout.Layout
