import ErbLayout.Proofs.CodeSign
import ErbLayout.Proofs.LaidTokens

/-!
The lines of running text and the line width. In a document without code, a line of a text is laid
out for the room that is left after the indentation, or after what stands on the line already, and
the last one for the tags that are glued to it as well. A line that is too long holds one word only,
unless a name in the glued tags looks like a marker: the marker that stands for it is counted, and
the name is what is put out.
-/

namespace ErbLayout.Text

section Trimming

/-- Blanks are trimmed from a text that shows something, and not from what follows it. -/
theorem trimStart_append_of_ne_nil {s : Text} (h : trimStart s ≠ []) (t : Text) :
    trimStart (s ++ t) = trimStart s ++ t := by
  obtain ⟨lead, hlead, hblank⟩ := exists_append_trimStart s
  have hstart : startsBlank (trimStart s ++ t) = false := by
    rw [startsBlank_append h, startsBlank_trimStart]
  conv_lhs => rw [hlead, List.append_assoc, trimStart_append hblank hstart]

theorem isPrefix_trimEnd_append {s : Text} (hs : endsBlank s = false) (t : Text) :
    s <+: trimEnd (s ++ t) := by
  obtain ⟨r, hr, hblank⟩ := exists_trimEnd_append (s ++ t)
  rcases List.append_eq_append_iff.mp hr with ⟨a, ha, -⟩ | ⟨a, ha, hrest⟩
  · exact ⟨a, ha.symm⟩
  · by_cases hnil : a = []
    · rw [hnil, List.append_nil] at ha
      exact ⟨[], by rw [List.append_nil]; exact ha⟩
    · -- the last character of the text would be among the blanks
      have hend : endsBlank s = true := by
        rw [ha]
        apply endsBlank_append_blanks _ hnil
        intro c hc
        exact hblank c (by rw [hrest]; exact List.mem_append_left t hc)
      rw [hs] at hend
      simp at hend

theorem trimStart_ne_nil {s : Text} (hne : s ≠ []) (hs : endsBlank s = false) :
    trimStart s ≠ [] := by
  obtain ⟨lead, hlead, hblank⟩ := exists_append_trimStart s
  intro hnil
  rw [hnil, List.append_nil] at hlead
  have hend : endsBlank s = true := by
    rw [hlead] at hne ⊢
    exact endsBlank_append_blanks [] hne hblank
  rw [hs] at hend
  simp at hend

end Trimming

end ErbLayout.Text

namespace ErbLayout

open Text Markup Code Layout MarkerTable

section Restoring

theorem isMarkerChar_of_mem_markerLike {s t r : Text} (h : markerLikes.run s = some (t, r)) :
    ∀ c ∈ t, isMarkerChar c := by
  have hsign : ∀ c ∈ ['e', 'r', 'b'], isMarkerChar c := by simp; decide
  change markerLike? s = some (t, r) at h
  unfold markerLike? at h
  split at h
  · simp at h
  · obtain ⟨u, hu, heq⟩ := Option.map_eq_some_iff.mp h
    obtain ⟨rfl, -⟩ : ['e', 'r', 'b'] ++ u = t ∧ _ := by simpa using heq
    intro c hc
    rcases List.mem_append.mp hc with hc | hc
    · exact hsign c hc
    · exact mem_spanOf ((upToLastTag?_isPrefix hu).subset hc)

theorem code?_of_noCode {body : Text} (h : codeTags.first? body = none) (digits : Text) :
    (extractCode body).2.code? digits = none := by
  rw [extractCode_of_noCode h]
  simp [code?]

/-- In a body without code, markers stand for text made of letters and digits. -/
theorem mem_restore {body : Text} (h : codeTags.first? body = none) {s : Text} {c : Char}
    (hc : c ∈ (extractCode body).2.restore s) : c ∈ s ∨ isMarkerChar c := by
  have hself : restoreFrom (extractCode body).2.code? s = s := by
    apply Recogniser.replace_eq_self
    intro d _
    rw [code?_of_noCode h]
    rfl
  rw [restore, hself, restoreFrom] at hc
  rcases Recogniser.mem_replace hc with hc | ⟨d, hd, hc⟩
  · exact Or.inl hc
  · right
    cases hliteral : (extractCode body).2.literal? d with
    | none =>
      rw [hliteral] at hc
      exact isMarkerChar_of_mem_written (isDigits_of_mem_found hd) hc
    | some literal =>
      rw [hliteral] at hc
      obtain ⟨t, r, hrun⟩ := exists_run_of_literal? hliteral
      exact isMarkerChar_of_mem_markerLike hrun c hc

theorem notMem_restore {body : Text} (h : codeTags.first? body = none) {s : Text} (hs : '\n' ∉ s) :
    '\n' ∉ (extractCode body).2.restore s := by
  intro hmem
  rcases mem_restore h hmem with hmem | hmem
  · exact hs hmem
  · exact absurd hmem (by decide)

theorem restore_ne_nil (body : Text) {s : Text} (hs : s ≠ []) :
    (extractCode body).2.restore s ≠ [] :=
  Recogniser.replace_ne_nil (fun d => ((isVisibleTable_extractCode body).literal d).ne_nil)
    (Recogniser.replace_ne_nil (fun d => ((isVisibleTable_extractCode body).code d).ne_nil) hs)

theorem lastLine_restore {body : Text} (h : codeTags.first? body = none) (s : Text) :
    lastLine ((extractCode body).2.restore s) = (extractCode body).2.restore (lastLine s) := by
  have hline := lastLine_of_notMem (notMem_restore h (notMem_lastLine s))
  rcases lastLine_cases s with hs | ⟨u, hu⟩
  · rw [hs] at hline
    rw [hline, hs]
  · conv_lhs => rw [hu, restore_append_cons _ _ (by decide), lastLine_append_cons]
    exact hline

/-- Words on a line take no more columns than are counted for them. -/
theorem width_restore_join_le (table : MarkerTable) (ws : List Text) :
    Text.width (table.restore (join [' '] ws)) ≤ columns table.width ws := by
  induction ws with
  | nil =>
    rw [join, restore_nil]
    exact Nat.zero_le _
  | cons w ws ih =>
    by_cases hws : ws = []
    · subst hws
      rw [columns_singleton]
      exact Nat.le_refl _
    · have hspace := width_append_cons_le standsAlone_space (table.restore w)
        (table.restore (join [' '] ws))
      rw [join_cons_of_ne_nil _ _ hws, List.append_assoc, List.singleton_append,
        restore_append_cons _ _ (by decide), columns_cons _ _ hws]
      change _ ≤ Text.width (table.restore w) + 1 + columns table.width ws
      omega

end Restoring

section Document

def frontOf : Option Text → Text
  | none => []
  | some matter => (if matter.getLast? == some '\n' then matter else matter ++ ['\n']) ++ ['\n']

theorem attachFrontMatter_eq (front : Option Text) {s : Text} (hs : s ≠ []) :
    attachFrontMatter front s = frontOf front ++ (s ++ ['\n']) := by
  cases front with
  | none => rfl
  | some matter => simp [attachFrontMatter, frontOf, hs]

theorem lastLine_frontOf_append (front : Option Text) (s : Text) :
    lastLine (frontOf front ++ s) = lastLine s := by
  cases front with
  | none => rfl
  | some matter =>
    rw [frontOf, List.append_assoc, List.singleton_append]
    exact lastLine_append_cons _ s

/-- A finished document begins with any start of its body that ends with something visible. -/
theorem isPrefix_attachFrontMatter (front : Option Text) {s : Text} (hne : s ≠ [])
    (hs : endsBlank s = false) (t : Text) :
    frontOf front ++ trimStart s <+: attachFrontMatter front (trim (s ++ t)) := by
  have hshown := trimStart_ne_nil hne hs
  have hends : endsBlank (trimStart s) = false := by
    obtain ⟨lead, hlead, -⟩ := exists_append_trimStart s
    rw [hlead, endsBlank_append _ hshown] at hs
    exact hs
  have hbody : trimStart s <+: trim (s ++ t) := by
    rw [trim, trimStart_append_of_ne_nil hshown]
    exact isPrefix_trimEnd_append hends t
  obtain ⟨more, hmore⟩ := hbody
  have hbodyNe : trim (s ++ t) ≠ [] := by
    rw [← hmore]
    exact List.append_ne_nil_of_left_ne_nil hshown more
  rw [attachFrontMatter_eq front hbodyNe, ← hmore]
  exact ⟨more ++ ['\n'], by simp⟩

end Document

section Line

variable {body : Text} (hcode : codeTags.first? body = none)
include hcode

/-- Words on a line take no more columns than are counted for them, and the tags glued to them as
many as they have characters. -/
theorem width_restore_glued_le (ws : List Text) {ts : List Token}
    (hts : ∀ t ∈ ts, t.lexeme.Fits t.lexeme.written) :
    Text.width ((extractCode body).2.restore (join [' '] ws ++ gluedTags ts)) ≤
      columns (extractCode body).2.width ws +
        ((extractCode body).2.restore (gluedTags ts)).length := by
  have hcolumn : ∀ c ∈ (extractCode body).2.restore (gluedTags ts), IsColumn c := by
    intro c hc
    apply isColumn_of_range
    rcases mem_restore hcode hc with hc | hc
    · exact range_of_mem_gluedTags hts c hc
    · exact range_of_isMarkerChar hc
  have hwords := width_restore_join_le (extractCode body).2 ws
  have htags := width_append_le_of_isColumn ((extractCode body).2.restore (join [' '] ws)) hcolumn
  rw [(isParted_restore _).append_of_startsApart _ (startsApart_gluedTags ts)]
  omega

/-- A line that is put on a new line takes its own columns after its indentation. -/
theorem width_lastLine_newLine_le (front : Option Text) (before : Text) (depth : Nat) {line : Text}
    (hstart : startsBlank line = false) (hfeed : '\n' ∉ line) :
    Text.width (lastLine (frontOf front ++
        trimStart ((extractCode body).2.restore (before ++ '\n' :: (indentation depth ++ line))))) ≤
      2 * depth + Text.width ((extractCode body).2.restore line) := by
  have hblank : ∀ c ∈ indentation depth, isBlank c :=
    fun c hc => isBlank_of_mem_indentation (List.mem_cons_of_mem _ hc)
  have hindented := width_spaces_append_le (2 * depth) ((extractCode body).2.restore line)
  have hrestored := notMem_restore hcode hfeed
  have hstart' : startsBlank ((extractCode body).2.restore line) = false := by
    rw [(isVisibleTable_extractCode _).startsBlank_restore, hstart]
  rw [lastLine_frontOf_append, restore_append_cons _ _ (by decide), restore_lead _ hblank]
  generalize (extractCode body).2.restore line = shown at hindented hrestored hstart' ⊢
  generalize (extractCode body).2.restore before = above
  by_cases hnil : trimStart above = []
  · -- the line is the first that shows something, and its indentation is trimmed
    obtain ⟨lead, hlead, hleadBlank⟩ := exists_append_trimStart above
    rw [hnil, List.append_nil] at hlead
    have hmargin : ∀ c ∈ above ++ '\n' :: indentation depth, isBlank c := by
      intro c hc
      rcases List.mem_append.mp hc with hc | hc
      · exact hleadBlank c (hlead ▸ hc)
      · exact isBlank_of_mem_indentation hc
    rw [← List.cons_append, ← List.append_assoc, trimStart_append hmargin hstart',
      lastLine_of_notMem hrestored]
    omega
  · have hline : '\n' ∉ indentation depth ++ shown := by
      have hspaces : '\n' ∉ indentation depth := by simp [indentation]
      simp [hspaces, hrestored]
    rw [trimStart_append_of_ne_nil hnil, lastLine_append_cons, lastLine_of_notMem hline]
    exact hindented

/-- A line that goes on after a tag, or at the start, takes its own columns after those of the line
so far. -/
theorem width_lastLine_inline_le (front : Option Text) {p : Page} (hp : p.BeginsLine)
    (hend : p.output = [] ∨ Sealed p.output) {line : Text} (hstart : startsBlank line = false)
    (hfeed : '\n' ∉ line) :
    Text.width (lastLine (frontOf front ++ trimStart
      ((extractCode body).2.restore (p.output ++ line)))) ≤
      (extractCode body).2.width (lastLine p.output) +
        Text.width ((extractCode body).2.restore line) := by
  have hrestored := notMem_restore hcode hfeed
  have hstart' : startsBlank ((extractCode body).2.restore line) = false := by
    rw [(isVisibleTable_extractCode _).startsBlank_restore, hstart]
  rw [lastLine_frontOf_append]
  rcases hend with hnil | hsealed
  · have htrim := @trimStart_append [] _ (by simp) hstart'
    rw [List.nil_append] at htrim
    rw [hnil, List.nil_append, htrim, lastLine_of_notMem hrestored]
    omega
  · obtain ⟨u, hu⟩ := List.getLast?_eq_some_iff.mp hsealed
    have hapart : EndsApart p.output := by
      rw [hu]
      exact endsApart_concat (by decide) u
    obtain ⟨margin, shown, hout, hmargin, hshown, -⟩ := hp
    have hmarginBlank : ∀ c ∈ margin, isBlank c := by
      intro c hc
      rw [hmargin c hc]
      decide
    have htrim : trimStart ((extractCode body).2.restore p.output) =
        (extractCode body).2.restore shown := by
      rw [hout, restore_lead _ hmarginBlank]
      exact trimStart_append hmarginBlank
        (by rw [(isVisibleTable_extractCode _).startsBlank_restore, hshown])
    have hlast : lastLine ((extractCode body).2.restore shown) =
        (extractCode body).2.restore (lastLine p.output) := by
      rw [lastLine_restore hcode, hout, lastLine_append hmargin]
    have hclosed : ∃ v, (extractCode body).2.restore (lastLine p.output) = v ++ ['>'] := by
      rw [hu, lastLine_append_of_notMem _ (by decide), restore_append_cons _ _ (by decide),
        restore_nil]
      exact ⟨_, rfl⟩
    have hne : trimStart ((extractCode body).2.restore p.output) ≠ [] := by
      rw [htrim]
      intro hnil
      obtain ⟨v, hv⟩ := hclosed
      rw [hnil] at hlast
      rw [← hlast] at hv
      simp [lastLine, afterLastLineFeed] at hv
    rw [(isParted_restore _).append_of_endsApart hapart, trimStart_append_of_ne_nil hne, htrim,
      lastLine_append_of_notMem _ hrestored, hlast]
    change _ ≤ Text.width ((extractCode body).2.restore (lastLine p.output)) + _
    obtain ⟨v, hv⟩ := hclosed
    rw [hv]
    exact width_concat_append_le standsAlone_greater v _

end Line

/-- A text among the tokens of a body, with the pages before it, after it and at the end. -/
structure LaidText (j : Job) (body : Text) (before : List Token) (t : Token) (rest : List Token)
    (s : Text) (p q page : Page) : Prop where
  tokens : tokens body = before ++ t :: rest
  lexeme : t.lexeme = .text s
  before : j.layBefore (t :: rest) before Page.blank = .ok p
  step : j.layToken t rest p = .ok q
  after : j.layTokens rest q = .ok page

def documentUpTo (front : Option Text) (table : MarkerTable) (p : Page) (s : Text)
    (lines : List Text) (glued : Text) : Text :=
  frontOf front ++ trimStart (table.restore
    (p.output ++ (laidLines p.depth (startsBlank s) lines ++ glued)))

def following (later : List Text) (rest : List Token) : List Token :=
  if later.isEmpty then rest else []

/-- A line of a text holds some words of it, which fit the room on the line. -/
theorem Job.exists_fitsLine (j : Job) {s : Text} {tail : Nat} {p : Page} {earlier later : List Text}
    {line : Text} (h : j.linesOf s tail p = earlier ++ line :: later) :
    ∃ group, line = join [' '] group ∧ group ≠ [] ∧
      (∀ w ∈ group, w ≠ [] ∧ ∀ c ∈ w, isBlank c = false) ∧
      FitsLine j.width
        (if earlier.isEmpty then if startsBlank s then j.room p
          else j.options.lineWidth - j.width (lastLine p.output)
          else j.room p)
        (if later.isEmpty then tail else 0) group := by
  obtain ⟨groups, hpack, hflat, hne, hfits⟩ := exists_fitLines_pack j.width
    (if startsBlank s then j.room p else j.options.lineWidth - j.width (lastLine p.output))
    (j.room p) tail fun w (hw : w ∈ words s) => (of_mem_words hw).1
  change j.linesOf s tail p = _ at hpack
  rw [h] at hpack
  obtain ⟨first, others, rfl, rfl, hothers⟩ := List.map_eq_append_iff.mp hpack.symm
  obtain ⟨group, last, rfl, rfl, rfl⟩ := List.map_eq_cons_iff.mp hothers
  have hgroup : group ∈ first ++ group :: last := by simp
  refine ⟨group, rfl, hne group hgroup, fun w hw => ?_, ?_⟩
  · have hword : w ∈ words s := by
      rw [← hflat]
      exact List.mem_flatten.mpr ⟨group, hgroup, hw⟩
    exact ⟨(of_mem_words hword).1, fun c hc => ((of_mem_words hword).2 c hc).2⟩
  · have hline := hfits first group last rfl
    rwa [List.isEmpty_map, List.isEmpty_map]

namespace LaidText

variable {options : Options} {body : Text} {before : List Token} {t : Token} {rest : List Token}
  {s : Text} {p q page : Page} (h : LaidText ⟨options, (extractCode body).2⟩
    (extractCode body).1 before t rest s p q page)
include h

theorem fits_rest : ∀ u ∈ rest, u.lexeme.Fits u.lexeme.written := by
  intro u hu
  apply fits_of_mem_tokens
  rw [h.tokens]
  exact List.mem_append_right before (List.mem_cons_of_mem t hu)

theorem fits_following (later : List Text) :
    ∀ u ∈ following later rest, u.lexeme.Fits u.lexeme.written := by
  unfold following
  split
  · exact h.fits_rest
  · simp

theorem neighbours : (∀ u ∈ before.getLast?, u.lexeme.IsTag) ∧
    ∀ u ∈ rest.head?, u.lexeme.IsTag ∧ u.afterBlank = endsBlank s :=
      neighbours_of_text h.tokens h.lexeme

/-- A text that does not end with a blank has no paragraph break, so one with a tag glued to it has
none. -/
theorem paragraphBreak_eq_nil (hglued : gluedTags rest ≠ []) : paragraphBreak s = [] := by
  cases hrest : rest with
  | nil => simp [hrest, gluedTags] at hglued
  | cons u rest' =>
    have hblank := (h.neighbours.2 u (by rw [hrest]; rfl)).2
    have hapart : u.afterBlank = false := by
      cases hafter : u.afterBlank with
      | false => rfl
      | true => simp [hrest, gluedTags, glued?_of_afterBlank hafter] at hglued
    rw [paragraphBreak, endsParagraph_eq_false (by rw [← hblank, hapart])]
    rfl

variable (hcode : codeTags.first? body = none)
include hcode

theorem output_eq : q.output = p.output ++
    (laidLines p.depth (startsBlank s)
      (Job.linesOf ⟨options, (extractCode body).2⟩ s (Job.gluedWidth rest) p) ++
      paragraphBreak s) :=
  (Job.output_layToken_text (code?_of_noCode hcode) h.lexeme h.step).1

theorem beginsLine : p.BeginsLine ∧ (p.output = [] ∨ Sealed p.output) :=
  ⟨(Job.beginsLine_layBefore (code?_of_noCode hcode) h.tokens h.before).1,
    Job.sealed_before_text (code?_of_noCode hcode) h.tokens h.lexeme h.before⟩

variable {earlier later : List Text} {line : Text}
  (hlines : Job.linesOf ⟨options, (extractCode body).2⟩ s (Job.gluedWidth rest) p =
    earlier ++ line :: later)
include hlines

/-- The finished page can be cut after each line of the text and the tags glued to it. -/
theorem exists_restore_page : ∃ more, (extractCode body).2.restore page.output =
    (extractCode body).2.restore
      (p.output ++ (laidLines p.depth (startsBlank s)
        (earlier ++ [line]) ++ gluedTags (following later rest))) ++ more := by
  have hrestore := isParted_restore (extractCode body).2
  have hcodes := code?_of_noCode hcode
  obtain ⟨more, hmore⟩ := Job.exists_output_layTokens hcodes h.after
  have hpage : page.output = p.output ++ laidLines p.depth (startsBlank s) (earlier ++ [line]) ++
      (later.flatMap (onNewLine p.depth) ++ (paragraphBreak s ++ (gluedTags rest ++ more))) := by
    rw [hmore, h.output_eq hcode, hlines, laidLines_append_cons]
    simp only [List.append_assoc]
  by_cases hglued : gluedTags (following later rest) = []
  · have hbreak : StartsApart (paragraphBreak s) := by
      unfold paragraphBreak
      split
      · exact startsApart_cons (by decide) []
      · exact startsApart_nil
    have hapart := Job.startsApart_layTokens hcodes (fun u hu => (h.neighbours.2 u hu).1)
      h.after hmore
    have htail := startsApart_append (startsApart_flatMap fun l (_ : l ∈ later) =>
      startsApart_onNewLine p.depth l) (startsApart_append hbreak hapart)
    rw [hpage, hglued, List.append_nil, hrestore.append_of_startsApart _ htail]
    exact ⟨_, rfl⟩
  · obtain rfl : later = [] := by
      by_contra hlater
      simp [following, hlater, gluedTags] at hglued
    have hsome : gluedTags rest ≠ [] := hglued
    have hends := endsApart_append_gluedTags (p.output ++ laidLines p.depth (startsBlank s)
      (earlier ++ [line])) hsome
    change ∃ more, _ = (extractCode body).2.restore (p.output ++ (_ ++ gluedTags rest)) ++ more
    rw [hpage, h.paragraphBreak_eq_nil hsome, List.flatMap_nil, List.nil_append, List.nil_append,
      ← List.append_assoc, hrestore.append_of_endsApart hends, List.append_assoc]
    exact ⟨_, rfl⟩

omit hcode in
theorem isVisible_line : IsVisible line ∧ IsVisible (line ++ gluedTags (following later rest)) ∧
    '\n' ∉ line ++ gluedTags (following later rest) := by
  obtain ⟨group, rfl, hne, hwords, -⟩ := Job.exists_fitsLine _ hlines
  have hline : IsVisible (join [' '] group) :=
    isVisible_join hne fun w hw => isVisible_of_notBlank (hwords w hw).1 (hwords w hw).2
  have hrange := range_of_mem_gluedTags (h.fits_following later)
  have hends : endsBlank (join [' '] group ++ gluedTags (following later rest)) = false := by
    by_cases hnil : gluedTags (following later rest) = []
    · rw [hnil, List.append_nil]
      exact hline.ends
    · exact (isVisible_of_notBlank hnil fun c hc =>
        isBlank_eq_false_of_visible (hrange c hc).1 (hrange c hc).2).endsBlank_append _
  refine ⟨hline, ⟨List.append_ne_nil_of_left_ne_nil hline.ne_nil _, ?_, hends⟩, ?_⟩
  · rw [startsBlank_append hline.ne_nil]
    exact hline.starts
  · intro hmem
    rcases List.mem_append.mp hmem with hmem | hmem
    · exact lineFeed_notMem_join (fun w hw => (hwords w hw).2) hmem
    · exact absurd (hrange _ hmem).1 (by decide)

/-- The finished document begins with what is put out up to a line of the text. -/
theorem isPrefix_documentUpTo (front : Option Text) :
    documentUpTo front (extractCode body).2 p s (earlier ++ [line])
      (gluedTags (following later rest)) <+:
      attachFrontMatter front (trim ((extractCode body).2.restore page.output)) := by
  obtain ⟨more, hmore⟩ := h.exists_restore_page hcode hlines
  obtain ⟨hline, hvisible, -⟩ := h.isVisible_line hlines
  obtain ⟨above, hupTo⟩ : ∃ above,
      p.output ++ (laidLines p.depth (startsBlank s) (earlier ++ [line]) ++
        gluedTags (following later rest)) =
      above ++ (line ++ gluedTags (following later rest)) := by
    rcases laidLines_concat_cases p.depth (startsBlank s) earlier hline
      with ⟨-, -, hlaid⟩ | ⟨-, u, hlaid⟩
    · exact ⟨p.output, by rw [hlaid]⟩
    · exact ⟨p.output ++ (u ++ '\n' :: indentation p.depth), by rw [hlaid]; simp⟩
  rw [hmore]
  apply isPrefix_attachFrontMatter
  · apply restore_ne_nil
    rw [hupTo]
    exact List.append_ne_nil_of_right_ne_nil _ hvisible.ne_nil
  · rw [(isVisibleTable_extractCode _).endsBlank_restore, hupTo]
    exact hvisible.endsBlank_append _

/-- The columns counted for a line of the text are enough for it but for what the names of the tags
glued to it have more than their markers. They fit the room on the line, or the line holds one
word. -/
theorem exists_columns : ∃ n,
    Text.width ((extractCode body).2.restore (line ++ gluedTags (following later rest))) ≤
      n + ((extractCode body).2.restore (gluedTags (following later rest))).length ∧
    ((∃ w, words line = [w]) ∨ 1 ≤ n ∧ n + (gluedTags (following later rest)).length ≤
      if startsBlank s = false ∧ earlier = []
        then options.lineWidth - (extractCode body).2.width (lastLine p.output)
      else available options.lineWidth p.depth) := by
  obtain ⟨group, rfl, hne, hwords, hfits⟩ := Job.exists_fitsLine _ hlines
  refine ⟨columns (extractCode body).2.width group,
    width_restore_glued_le hcode group (h.fits_following later), ?_⟩
  by_cases hone : group.length = 1
  · left
    rw [words_join hwords]
    exact List.length_eq_one_iff.mp hone
  · right
    have hfits := hfits.resolve_left hone
    constructor
    · have hlength : 0 < group.length := List.length_pos_iff.mpr hne
      unfold columns
      omega
    · have htaken : (gluedTags (following later rest)).length = if later.isEmpty
          then Job.gluedWidth rest else 0 := by
        rw [← gluedWidth_eq_length (h.fits_following later), following]
        split <;> rfl
      rw [htaken]
      refine Nat.le_trans hfits (Nat.le_of_eq ?_)
      cases earlier with
      | nil => cases startsBlank s <;> rfl
      | cons first earlier => cases startsBlank s <;> rfl

/-- A line of the text fits, but for what the names of the tags glued to it have more than their
markers, or it holds one word. -/
theorem line_fits (hroom : leastRoom ≤ options.lineWidth - 2 * p.depth) (front : Option Text) :
    (∃ w, words line = [w]) ∨
      Text.width (lastLine (documentUpTo front (extractCode body).2 p s (earlier ++ [line])
          (gluedTags (following later rest)))) ≤
        options.lineWidth +
          (((extractCode body).2.restore (gluedTags (following later rest))).length -
            (gluedTags (following later rest)).length) := by
  obtain ⟨hline, hvisible, hfeed⟩ := h.isVisible_line hlines
  obtain ⟨n, hwidth, hone | ⟨hpos, hfits⟩⟩ := h.exists_columns hcode hlines
  · exact Or.inl hone
  right
  rw [documentUpTo]
  rcases laidLines_concat_cases p.depth (startsBlank s) earlier hline
    with ⟨hstart, hfirst, hlaid⟩ | ⟨hnew, u, hlaid⟩
  · obtain ⟨hbegins, hend⟩ := h.beginsLine hcode
    have hinline := width_lastLine_inline_le hcode front hbegins hend hvisible.starts hfeed
    rw [if_pos ⟨hstart, hfirst⟩] at hfits
    rw [hlaid]
    omega
  · have hnewLine := width_lastLine_newLine_le hcode front (p.output ++ u) p.depth
      hvisible.starts hfeed
    have hupTo : p.output ++ (u ++ '\n' :: (indentation p.depth ++ line) ++
          gluedTags (following later rest)) =
        p.output ++ u ++ '\n' :: (indentation p.depth ++
          (line ++ gluedTags (following later rest))) := by simp
    have hleast : 0 < leastRoom := by decide
    rw [if_neg (by rintro ⟨hstart, hfirst⟩; simp [hstart, hfirst] at hnew), available,
      if_neg (Nat.not_lt.mpr hroom)] at hfits
    rw [hlaid, hupTo]
    omega

end LaidText

theorem exists_laidText {j : Job} {body : Text} {page : Page}
    (h : j.layTokens (tokens body) Page.blank = .ok page) {before rest : List Token} {t : Token}
    {s : Text} (htokens : tokens body = before ++ t :: rest) (ht : t.lexeme = .text s) :
    ∃ p q, LaidText j body before t rest s p q page := by
  rw [htokens, Job.layTokens_append] at h
  obtain ⟨p, hbefore, hrest⟩ := bind_eq_ok h
  obtain ⟨q, hstep, hafter⟩ := bind_eq_ok hrest
  exact ⟨p, q, htokens, ht, hbefore, hstep, hafter⟩

/-- In a document without code, a line of a text, from its start to the end of the text or of the
tags glued to it, is no longer than the line width and what the names of these tags have more than
their markers, or it holds one word. -/
theorem textLine_fits_or_holds_word (options : Options) (source out : Text)
    (hcode : codeTags.first? (splitFrontMatter source).2 = none)
    (h : formatDocument options source = .ok out) (before : List Token) (t : Token)
    (rest : List Token) (s : Text) (htokens : tokens (markedBody source).1 = before ++ t :: rest)
    (ht : t.lexeme = .text s) :
    ∃ p q page,
      LaidText ⟨options, (markedBody source).2⟩ (markedBody source).1 before t rest s p q page ∧
      q.output = p.output ++
        (laidLines p.depth (startsBlank s)
          (Job.linesOf ⟨options, (markedBody source).2⟩ s (Job.gluedWidth rest) p) ++
          paragraphBreak s) ∧
      ∀ earlier line later,
        Job.linesOf ⟨options, (markedBody source).2⟩ s (Job.gluedWidth rest) p =
          earlier ++ line :: later →
        documentUpTo (splitFrontMatter source).1 (markedBody source).2 p s (earlier ++ [line])
            (gluedTags (following later rest)) <+: out ∧
          (leastRoom ≤ options.lineWidth - 2 * p.depth →
            (∃ w, words line = [w]) ∨
              Text.width (lastLine
                (documentUpTo (splitFrontMatter source).1 (markedBody source).2 p s
                  (earlier ++ [line]) (gluedTags (following later rest)))) ≤
                options.lineWidth +
                  (((markedBody source).2.restore (gluedTags (following later rest))).length -
                    (gluedTags (following later rest)).length)) := by
  rw [formatDocument_eq] at h
  rcases Job.layBody_cases ⟨options, (markedBody source).2⟩ (markedBody source).1 with
    ⟨stop, -, hlay⟩ | ⟨page, htokensLaid, -, hlay⟩ | ⟨page, -, -, hlay⟩
  · simp [hlay] at h
  · rw [hlay] at h
    obtain rfl := Except.ok.inj h
    obtain ⟨p, q, hlaid⟩ := exists_laidText htokensLaid htokens ht
    refine ⟨p, q, page, hlaid, hlaid.output_eq hcode, fun earlier line later hlines =>
      ⟨?_, fun hroom => ?_⟩⟩
    · exact hlaid.isPrefix_documentUpTo hcode hlines _
    · exact hlaid.line_fits hcode hlines hroom _
  · simp [hlay] at h

/-- The text of an item on two lines: the second goes on to the end of the list. -/
theorem textLine_fits_or_holds_word_item :
    formatDocument { lineWidth := 44 }
      "<ul><li>alpha bravo charlie delta echo foxtrot golf hotel</li></ul>".toList =
      .ok "<ul><li>alpha bravo charlie delta echo\n    foxtrot golf hotel</li></ul>\n".toList ∧
    ∃ before t rest p q page,
      LaidText
        ⟨{ lineWidth := 44 },
          (markedBody
            "<ul><li>alpha bravo charlie delta echo foxtrot golf hotel</li></ul>".toList).2⟩
        (markedBody "<ul><li>alpha bravo charlie delta echo foxtrot golf hotel</li></ul>".toList).1
        before t rest "alpha bravo charlie delta echo foxtrot golf hotel".toList p q page ∧
      leastRoom ≤ 44 - 2 * p.depth ∧ gluedTags rest = "</li></ul>".toList ∧
      Text.width (lastLine (documentUpTo
        (splitFrontMatter
          "<ul><li>alpha bravo charlie delta echo foxtrot golf hotel</li></ul>".toList).1
        (markedBody "<ul><li>alpha bravo charlie delta echo foxtrot golf hotel</li></ul>".toList).2
        p "alpha bravo charlie delta echo foxtrot golf hotel".toList
        ["alpha bravo charlie delta echo".toList, "foxtrot golf hotel".toList]
        (gluedTags rest))) ≤ 44 := by
  have hformat : formatDocument { lineWidth := 44 }
      "<ul><li>alpha bravo charlie delta echo foxtrot golf hotel</li></ul>".toList =
      .ok "<ul><li>alpha bravo charlie delta echo\n    foxtrot golf hotel</li></ul>\n".toList := by
    decide +kernel
  obtain ⟨p, q, page, hlaid, -, hline⟩ :=
    textLine_fits_or_holds_word { lineWidth := 44 } _ _ (by decide +kernel) hformat
    [⟨0, false, .tag (.opening "ul".toList [] [] .plain)⟩,
      ⟨4, false, .tag (.opening "li".toList [] [] .plain)⟩]
    ⟨8, false, .text "alpha bravo charlie delta echo foxtrot golf hotel".toList⟩
    [⟨57, false, .tag (.closing [] "li".toList [])⟩, ⟨62, false, .tag (.closing [] "ul".toList [])⟩]
    "alpha bravo charlie delta echo foxtrot golf hotel".toList (by decide +kernel) rfl
  have hpage : ((⟨{ lineWidth := 44 },
      (markedBody "<ul><li>alpha bravo charlie delta echo foxtrot golf hotel</li></ul>".toList).2⟩ :
      Job).layBefore [⟨8, false, .text "alpha bravo charlie delta echo foxtrot golf hotel".toList⟩,
        ⟨57, false, .tag (.closing [] "li".toList [])⟩,
        ⟨62, false, .tag (.closing [] "ul".toList [])⟩]
      [⟨0, false, .tag (.opening "ul".toList [] [] .plain)⟩,
        ⟨4, false, .tag (.opening "li".toList [] [] .plain)⟩]
      Page.blank).toOption.map (fun p => (p.depth, lastLine p.output)) =
          some (2, "<ul><li>".toList) := by
    decide +kernel
  rw [hlaid.before] at hpage
  obtain ⟨hdepth, hlast⟩ := Prod.mk.inj (Option.some.inj hpage)
  have hroom : leastRoom ≤ 44 - 2 * p.depth := by
    rw [hdepth]
    decide
  refine ⟨hformat, _, _, _, p, q, page, hlaid, hroom, by decide, ?_⟩
  have hfits := (hline ["alpha bravo charlie delta echo".toList] "foxtrot golf hotel".toList []
    ?_).2 hroom
  · rcases hfits with ⟨w, hw⟩ | hfits
    · have hwords : words "foxtrot golf hotel".toList =
          ["foxtrot".toList, "golf".toList, "hotel".toList] := by
        decide +kernel
      rw [hwords] at hw
      simp at hw
    · exact Nat.le_trans hfits (by decide +kernel)
  · rw [Job.linesOf, Job.room, hlast, hdepth]
    decide +kernel

/-- The name in the tag is counted as its marker, which is shorter, so the second word is not put on
a new line. -/
theorem textLine_overflows :
    formatDocument { lineWidth := 40 } "alpha bravo<erbcomponentwithalongnametag/>".toList =
        .ok "alpha bravo<erbcomponentwithalongnametag/>\n".toList ∧
      Text.width "alpha bravo<erbcomponentwithalongnametag/>".toList = 42 ∧
      words "alpha bravo".toList = ["alpha".toList, "bravo".toList] ∧
      formatDocument { lineWidth := 40 } "alpha bravo<my-componentwithalongname-tag/>".toList =
        .ok "alpha\nbravo<my-componentwithalongname-tag/>\n".toList := by
  decide +kernel

end ErbLayout
