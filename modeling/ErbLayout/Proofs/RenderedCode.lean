import ErbLayout.Proofs.Reextraction
import ErbLayout.Proofs.SteadyRows

/-!
Code tags with one space inside each delimiter. A table that has the code tags of texts in this
form, and those of tags and raw content as they are, gives the same layout: a code tag in a text is
put out in this form anyway, and it is no part of a text whose columns are counted. So rows are
steady with the one table if they are with the other. Once a text is laid out its code tags have
this form.
-/

namespace ErbLayout

open Text Markup Code Layout MarkerTable

section Rendered

/-- The code tag that is read, once it is put out. -/
theorem exists_tag_renderedCode {code : Text} (h : IsCodeTag code) :
    ∃ tag tag', CodeTag.ofText? code = some tag ∧ tag.IsRead ∧
      CodeTag.ofText? (renderedCode code) = some tag' ∧
      tag'.IsRead ∧ tag'.code = tag.code ∧ tag'.render tag'.code = tag.render tag.code ∧
      renderedCode code = tag.render tag.code ∧ IsCodeTag (renderedCode code) := by
  obtain ⟨tag, hwritten, hrun⟩ := h
  have htag : CodeTag.ofText? code = some tag := hwritten ▸ ofText?_written (hrun [])
  obtain ⟨tag', hrun', hwritten', hcode, hrender⟩ := exists_codeTag?_render (hrun [])
  have hshown : renderedCode code = tag.render tag.code := by simp [renderedCode, htag]
  refine ⟨tag, tag', htag, isRead_of_run (hrun []), ?_, isRead_of_run (hrun' []), hcode, hrender,
    hshown, tag', ?_, ?_⟩
  · rw [hshown, ← hwritten']
    exact ofText?_written (hrun' [])
  · rw [hshown, hwritten']
  · rw [hshown]
    exact hrun'

theorem renderedCode_renderedCode {code : Text} (h : IsCodeTag code) :
    renderedCode (renderedCode code) = renderedCode code := by
  obtain ⟨tag, tag', -, -, htag', -, -, hrender, hshown, -⟩ := exists_tag_renderedCode h
  rw [renderedCode, htag', hshown]
  exact hrender

theorem isCodeTag_renderedCode {code : Text} (h : IsCodeTag code) :
    IsCodeTag (renderedCode code) := by
  obtain ⟨-, -, -, -, -, -, -, -, -, hcode⟩ := exists_tag_renderedCode h
  exact hcode

def MarkerTable.rendered (table : MarkerTable) (shown : List Text) : MarkerTable where
  literals := table.literals
  codes := table.codes.mapIdx fun n code => if Nat.toDigits 10 n ∈ shown
    then renderedCode code else code

theorem code?_rendered {table : MarkerTable} (h : table.literals = []) (shown : List Text)
    (digits : Text) :
    (table.rendered shown).code? digits =
      (table.code? digits).map fun code => if digits ∈ shown then renderedCode code else code := by
  cases hn : numberOf? digits with
  | none => simp [code?, hn]
  | some n =>
    obtain rfl := numberOf?_eq_some_iff.mp hn
    have hrendered : (table.rendered shown).literals = [] := h
    rw [code?_toDigits h, code?_toDigits hrendered]
    simp [MarkerTable.rendered]

theorem IsCodeTag.apart {code : Text} (h : IsCodeTag code) : markers.Apart code := by
  obtain ⟨tag, hwritten, hrun⟩ := h
  exact hwritten ▸ apart_code (isRead_of_run (hrun []))

theorem first?_renderedCode {code : Text} (h : IsCodeTag code)
    (hnone : markers.first? code = none) :
    markers.first? (renderedCode code) = none := by
  obtain ⟨tag, hwritten, hrun⟩ := h
  have hread := isRead_of_run (hrun [])
  have htag : CodeTag.ofText? code = some tag := hwritten ▸ ofText?_written (hrun [])
  have hshown : renderedCode code = tag.render tag.code := by simp [renderedCode, htag]
  rw [← found_eq_nil_iff, hshown, found_eq_of_content (content_render isContent_markers hread),
    hwritten, found_eq_nil_iff]
  exact hnone

theorem IsCleanTable.rendered {table : MarkerTable} (h : IsCleanTable table) (shown : List Text) :
    IsCleanTable (table.rendered shown) := by
  refine ⟨h.literals, fun code hcode => ?_⟩
  obtain ⟨n, hn, rfl⟩ := List.mem_mapIdx.mp hcode
  obtain ⟨htag, hnone⟩ := h.codes _ (List.getElem_mem hn)
  split
  · exact ⟨isCodeTag_renderedCode htag, first?_renderedCode htag hnone⟩
  · exact ⟨htag, hnone⟩

end Rendered

section Marks

def shownMarks (shown : List Text) (s : Text) : Text :=
  ((markers.found s).filter (· ∈ shown)).map fun _ => 'x'

theorem shownMarks_eq_nil_iff {shown : List Text} {s : Text} :
    shownMarks shown s = [] ↔ ∀ d ∈ markers.found s, d ∉ shown := by
  simp [shownMarks, List.filter_eq_nil_iff]

theorem isContent_shownMarks (shown : List Text) : IsContent (shownMarks shown) where
  nil := by simp [shownMarks, Recogniser.found_of_first?_eq_none (p := markers) (s := []) rfl]
  cut s c t hc := by
    have hfound := (apart_singleton hc).found_append markers_isLocal s t
    rw [Recogniser.found_of_first?_eq_none (first?_singleton c), List.singleton_append] at hfound
    simp [shownMarks, hfound, Recogniser.found_of_first?_eq_none (first?_singleton c)]
  blank c _ := by simp [shownMarks, Recogniser.found_of_first?_eq_none (first?_singleton c)]

theorem shownMarks_of_first?_eq_none (shown : List Text) {s : Text} (h : markers.first? s = none) :
    shownMarks shown s = [] := by
  rw [shownMarks, Recogniser.found_of_first?_eq_none h]
  rfl

theorem shownMarks_lastLine {shown : List Text} {s : Text} (h : shownMarks shown s = []) :
    shownMarks shown (lastLine s) = [] := by
  rcases lastLine_cases s with hline | ⟨u, hu⟩
  · rw [hline, h]
  · rw [hu, (isContent_shownMarks shown).append_blank_cons u (by decide)] at h
    exact (List.append_eq_nil_iff.mp h).2

theorem shownMarks_of_mem_words {shown : List Text} {s w : Text} (h : shownMarks shown s = [])
    (hw : w ∈ words s) :
    shownMarks shown w = [] := by
  rw [← (isContent_shownMarks shown).words_eq s, List.flatMap_eq_nil_iff] at h
  exact h w hw

theorem shownMarks_value {shown : List Text} {s : Text} {a : Attribute} (h : IsAttribute s a)
    (hs : shownMarks shown s = []) : shownMarks shown (a.value.getD []) = [] := by
  have hmarks := isContent_shownMarks shown
  cases h with
  | name => exact hmarks.nil
  | @quoted name value q quote hname hquote hq hvalue =>
    rw [hmarks.quoted_eq name value (isMarkerChar_of_written hq)] at hs
    simp only [List.append_eq_nil_iff] at hs
    exact hs.2.2.2.1
  | @bare name value hname hne hvalue =>
    rw [hmarks.cut name '=' value (by decide)] at hs
    simp only [List.append_eq_nil_iff] at hs
    exact hs.2.2

variable {shown : List Text} {name gap : Text} {l : List SpacedAttribute} {ending : Ending}

theorem shownMarks_attributes (hgap : ∀ c ∈ gap, isBlank c)
    (ht : shownMarks shown
      (Tag.opening name (l.flatMap SpacedAttribute.text) gap ending).written = []) :
    shownMarks shown (l.flatMap SpacedAttribute.text) = [] := by
  have hmarks := isContent_shownMarks shown
  have hlist : StartsApart (l.flatMap SpacedAttribute.text) := startsApart_flatMap fun x _ =>
    startsApart_text x
  have hend : StartsApart ending.written := by cases ending <;> exact startsApart_cons (by decide) _
  rw [Tag.written, hmarks.cons (by decide), hmarks.append_of_startsApart _ hend,
    hmarks.append_blank _ hgap, hmarks.append_of_startsApart name hlist] at ht
  simp only [List.append_eq_nil_iff] at ht
  exact ht.2.1.2

theorem shownMarks_written (hl : shownMarks shown (l.flatMap SpacedAttribute.text) = [])
    {x : SpacedAttribute} (hx : x ∈ l) :
    shownMarks shown x.written = [] := by
  rw [(isContent_shownMarks shown).attributes_eq, List.flatMap_eq_nil_iff] at hl
  exact hl x hx

/-- A tag on one line shows nothing either, with other attributes that show nothing. -/
theorem shownMarks_collapsedTag (hgap : ∀ c ∈ gap, isBlank c)
    (ht : shownMarks shown (Tag.opening name (l.flatMap SpacedAttribute.text) gap ending).written =
      []) {s : Text} (hs : shownMarks shown s = []) :
    shownMarks shown (collapsedTag name s ending.written) = [] := by
  have hmarks := isContent_shownMarks shown
  have hlist : StartsApart (l.flatMap SpacedAttribute.text) := startsApart_flatMap fun x _ =>
    startsApart_text x
  have hcollapse : shownMarks shown (' ' :: collapse s) =
      shownMarks shown (l.flatMap SpacedAttribute.text) := by
    rw [shownMarks_attributes hgap ht, hmarks.cons (by decide), hmarks.blank _ (by decide),
      List.nil_append, hmarks.collapse_eq, hs]
  have hwhole := Job.content_opening hmarks name ending hcollapse hlist
    (startsApart_cons (by decide) _) hgap
  rw [ht] at hwhole
  simpa [collapsedTag] using hwhole

end Marks

section Measures

variable {measure measure' : Text → Nat}

theorem packFrom_congr {l : List Text} (h : ∀ w ∈ l, measure w = measure' w) (width tail room : Nat)
    (line : Text) (used : Nat) :
    packFrom measure width tail room line used l =
      packFrom measure' width tail room line used l := by
  induction l generalizing room line used with
  | nil => rfl
  | cons w l ih =>
    have hrest := ih fun v hv => h v (List.mem_cons_of_mem w hv)
    simp only [packFrom, h w List.mem_cons_self, hrest]

theorem pack_congr {l : List Text} (h : ∀ w ∈ l, measure w = measure' w)
    (firstWidth width tail : Nat) :
    pack measure firstWidth width tail l = pack measure' firstWidth width tail l :=
  packFrom_congr h width tail firstWidth [] 0

/-- What is measured of attributes are the tag on one line, each attribute on a line, and the tokens
of values. -/
theorem formatAttributes_congr {style : AttributeStyle} {name attributes ending : Text}
    (hwhole : measure ('<' :: (name ++ ' ' :: (collapse attributes ++ ending))) =
      measure' ('<' :: (name ++ ' ' :: (collapse attributes ++ ending))))
    (hline : ∀ a ∈ attributesOf attributes, measure (renderAttribute style.ranking a) =
      measure' (renderAttribute style.ranking a))
    (htokens : ∀ a ∈ attributesOf attributes, ∀ w ∈ tokensOf style.ranking a,
      measure w = measure' w) (depth : Nat) :
    formatAttributes style measure name attributes ending depth =
      formatAttributes style measure' name attributes ending depth := by
  have hbroken : ∀ a ∈ attributesOf attributes, ∀ depth,
      brokenAttribute style measure depth a = brokenAttribute style measure' depth a := by
    intro a ha depth
    unfold brokenAttribute
    dsimp only
    rw [pack_congr (htokens a ha)]
  unfold formatAttributes
  dsimp only
  rw [hwhole]
  congr 4
  apply List.flatMap_congr
  intro a ha
  rw [hline a ha, hbroken a ha]

end Measures

section Shown

def ShownContent (shown : List Text) : Option Text → Text → Prop
  | none, s => ∀ d ∈ markers.found s, d ∈ shown
  | some _, s => shownMarks shown s = []

def ShownRows (shown : List Text) : Option Text → Text → List (Tag × Text) → Prop
  | container, x, [] => ShownContent shown container x
  | container, x, (t, u) :: rows =>
    ShownContent shown container x ∧ shownMarks shown t.written = [] ∧
      ShownRows shown t.rawContainer? u rows

theorem mem_found_of_mem_contentMarkers {container : Option Text} {x d : Text}
    (h : d ∈ contentMarkers container x) :
    d ∈ markers.found x := by
  cases container with
  | none => exact h
  | some name => simp [contentMarkers] at h

theorem found_rows_cons (x : Text) (t : Tag) (u : Text) (rows : List (Tag × Text)) :
    markers.found (x ++ rowsWritten ((t, u) :: rows)) =
      markers.found x ++ (markers.found t.written ++ markers.found (u ++ rowsWritten rows)) := by
  rw [rowsWritten_cons, (apart_tag t).found_append markers_isLocal]

theorem mem_found_of_mem_textMarkers {container : Option Text} {x d : Text}
    {rows : List (Tag × Text)} (h : d ∈ textMarkers container x rows) :
    d ∈ markers.found (x ++ rowsWritten rows) := by
  induction rows generalizing container x with
  | nil =>
    rw [rowsWritten, List.flatMap_nil, List.append_nil]
    exact mem_found_of_mem_contentMarkers h
  | cons row rows ih =>
    obtain ⟨t, u⟩ := row
    rw [found_rows_cons]
    rcases List.mem_append.mp h with h | h
    · exact List.mem_append_left _ (mem_found_of_mem_contentMarkers h)
    · exact List.mem_append_right _ (List.mem_append_right _ (ih h))

/-- Markers that occur once stand in a text between tags or elsewhere. -/
theorem shownRows_of_nodup {shown : List Text} {container : Option Text} {x : Text}
    {rows : List (Tag × Text)} (hnodup : (markers.found (x ++ rowsWritten rows)).Nodup)
    (h : ∀ d ∈ markers.found (x ++ rowsWritten rows), d ∈ shown ↔
      d ∈ textMarkers container x rows) :
    ShownRows shown container x rows := by
  induction rows generalizing container x with
  | nil =>
    rw [rowsWritten, List.flatMap_nil, List.append_nil] at h
    cases container with
    | none => exact fun d hd => (h d hd).mpr hd
    | some name =>
      exact shownMarks_eq_nil_iff.mpr fun d hd hmem => by
        simpa [textMarkers, contentMarkers] using (h d hd).mp hmem
  | cons row rows ih =>
    obtain ⟨t, u⟩ := row
    rw [found_rows_cons] at hnodup h
    obtain ⟨-, hrest, hx⟩ := List.nodup_append.mp hnodup
    obtain ⟨-, hrest, ht⟩ := List.nodup_append.mp hrest
    refine ⟨?_, ?_, ?_⟩
    · have hfound := fun d (hd : d ∈ markers.found x) => h d (List.mem_append_left _ hd)
      cases container with
      | none => exact fun d hd => (hfound d hd).mpr (List.mem_append_left _ hd)
      | some name =>
        refine shownMarks_eq_nil_iff.mpr fun d hd hmem => ?_
        have htext : d ∈ textMarkers t.rawContainer? u rows := (hfound d hd).mp hmem
        exact hx d hd d (List.mem_append_right _ (mem_found_of_mem_textMarkers htext)) rfl
    · refine shownMarks_eq_nil_iff.mpr fun d hd hmem => ?_
      rcases List.mem_append.mp ((h d (List.mem_append_right _ (List.mem_append_left _ hd))).mp
        hmem) with hd' | hd'
      · exact hx d (mem_found_of_mem_contentMarkers hd') d (List.mem_append_left _ hd) rfl
      · exact ht d hd d (mem_found_of_mem_textMarkers hd') rfl
    · refine ih hrest fun d hd => ?_
      have hlater : d ∈ markers.found t.written ++ markers.found (u ++ rowsWritten rows) :=
        List.mem_append_right _ hd
      rw [h d (List.mem_append_right _ hlater), textMarkers, List.mem_append, or_iff_right_iff_imp]
      intro hd'
      exact absurd rfl (hx d (mem_found_of_mem_contentMarkers hd') d hlater)

end Shown

/-- The jobs have the same options, and one has the code tags of some markers as they are put
out. -/
structure Job.Shows (shown : List Text) (j j' : Job) : Prop where
  options : j'.options = j.options
  table : j'.table = j.table.rendered shown
  clean : IsCleanTable j.table

namespace Job.Shows

variable {shown : List Text} {j j' : Job} {name gap : Text} {l : List SpacedAttribute}
  {ending : Ending} (h : Job.Shows shown j j')
include h

theorem code?_eq (digits : Text) :
    j'.table.code? digits = (j.table.code? digits).map fun code =>
      if digits ∈ shown then renderedCode code else code := by
  rw [h.table, code?_rendered h.clean.literals]

theorem restore_eq {s : Text} (hs : shownMarks shown s = []) :
    j'.table.restore s = j.table.restore s := by
  have hliterals : j'.table.literals = [] := by
    rw [h.table]
    exact h.clean.literals
  rw [restore_of_literals_nil hliterals, restore_of_literals_nil h.clean.literals]
  apply Recogniser.replace_congr
  intro d hd
  have hnot := shownMarks_eq_nil_iff.mp hs d hd
  simp [h.code?_eq, hnot]

theorem width_eq {s : Text} (hs : shownMarks shown s = []) : j'.width s = j.width s :=
  congrArg Text.width (h.restore_eq hs)

theorem layText_eq {s : Text} (hs : shownMarks shown s = []) (tail : Nat) {p : Page}
    (hp : shownMarks shown p.output = []) : j'.layText s tail p = j.layText s tail p := by
  have hline := h.width_eq (shownMarks_lastLine hp)
  have hwords : ∀ w ∈ words s, j'.width w = j.width w :=
    fun w hw => h.width_eq (shownMarks_of_mem_words hs hw)
  unfold Job.layText reflow
  dsimp only
  rw [hline, pack_congr hwords, Job.room, Job.room, h.options]

/-- A code tag that is put out is laid out as the code tag it comes from. -/
theorem agree_layCodeTag (hj : j.IsPlain) {code : Text} (hcode : IsCodeTag code) (newLine : Bool)
    {p q : Page} (hpages : p.Matches [] q) :
    Agree [] (j.layCodeTag code newLine p) (j'.layCodeTag (renderedCode code) newLine q) := by
  obtain ⟨tag, tag', htag, -, htag', -, hsame, hrender, -, -⟩ := exists_tag_renderedCode hcode
  have hj' : ∀ code width, j'.options.formatCode code width = none := by
    rw [h.options]
    exact hj.formatCode
  have hopener : ∀ code, (j.layOpener code p).2.Matches [] (j'.layOpener code q).2 := by
    intro code
    unfold Job.layOpener
    rw [h.options]
    split
    · exact hpages
    · exact (hpages.note _ _).note _ _
  have hnoted : ∀ code, (j.noteFormatted code p).Matches [] (j'.noteFormatted code q) :=
    fun code => (hpages.note _ _).note _ _
  rw [hsame] at hrender
  unfold Job.layCodeTag
  rw [htag, htag', h.options]
  dsimp only
  rw [hsame]
  cases Kind.of j.options.probe tag.code with
  | comment =>
    dsimp only
    rw [hrender]
    exact .ok (hpages.emit _ newLine)
  | closer =>
    dsimp only
    rw [hrender]
    exact (hpages.pop .code _ _).bind fun _ _ hpages => .ok (hpages.emit _ newLine)
  | reopener =>
    dsimp only
    rw [hrender]
    exact (hpages.pop .code _ _).bind fun _ _ hpages => .ok ((hpages.emit _ newLine).push _)
  | standalone =>
    dsimp only
    rw [layCode_eq hj.formatCode, layCode_eq hj', hrender]
    exact .ok ((hnoted tag.code).emit _ newLine)
  | expression =>
    dsimp only
    rw [layCode_eq hj.formatCode, layCode_eq hj', hrender]
    exact .ok ((hnoted tag.code).emit _ newLine)
  | opener =>
    dsimp only
    rw [layOpener_eq hj.formatCode, layOpener_eq hj', hrender]
    exact .ok (((hopener tag.code).emit _ newLine).push _)

theorem shownMarks_layCodeTag (hj : j.IsPlain) {digits code : Text}
    (hcode : j.table.code? digits = some code) {newLine : Bool} {p p' : Page}
    (hp : shownMarks shown p.output = []) (hlay : j.layCodeTag code newLine p = .ok p') :
    shownMarks shown p'.output = [] ∧ EndsApart p'.output := by
  have hmarks := isContent_shownMarks shown
  obtain ⟨hread, hnone⟩ := h.clean.of_code? hcode
  obtain ⟨tag, hwritten, hrun⟩ := hread
  have htag : CodeTag.ofText? code = some tag := hwritten ▸ ofText?_written (hrun [])
  have hread := isRead_of_run (hrun [])
  obtain ⟨q, hq, hp'⟩ := exists_emit_of_layCodeTag hj.formatCode htag hlay
  obtain ⟨hemit, hend⟩ := content_emit_enclosed hmarks q (isEnclosed_render hread tag.code) newLine
  rw [← hp', hq, hp, content_render hmarks hread, hwritten,
    shownMarks_of_first?_eq_none shown hnone] at hemit
  exact ⟨hemit, hp' ▸ hend⟩

theorem agree_layPieces (hj : j.IsPlain) {found : List (Text × Text)}
    (hfound : ∀ x ∈ found, markers.first? x.1 = none ∧ x.2 ∈ shown ∧ (j.table.code? x.2).isSome)
    (offset : Nat) {p q : Page} (hpages : p.Matches [] q)
    (hp : shownMarks shown p.output = [] ∧ EndsApart p.output) :
    Agree [] (j.layPieces offset (found.map (pieceOf j.table)) p)
      (j'.layPieces offset (found.map (pieceOf j'.table)) q) ∧
      ∀ p', j.layPieces offset (found.map (pieceOf j.table)) p = .ok p' →
        shownMarks shown p'.output = [] ∧ EndsApart p'.output := by
  induction found generalizing offset p q with
  | nil =>
    refine ⟨.ok hpages, ?_⟩
    rintro p' hp'
    obtain rfl := Except.ok.inj hp'
    exact hp
  | cons x found ih =>
    obtain ⟨b, digits⟩ := x
    obtain ⟨hb, hdigits, hcode⟩ := hfound _ List.mem_cons_self
    obtain ⟨code, hcode⟩ := Option.isSome_iff_exists.mp hcode
    dsimp only at hb hdigits hcode
    have hbMarks := shownMarks_of_first?_eq_none shown hb
    have hcode' : j'.table.code? digits = some (renderedCode code) := by
      simp [h.code?_eq, hcode, hdigits]
    have hq : shownMarks shown q.output = [] := by
      rw [← hp.1, hpages.output]
      rfl
    have htext : (j.layText b 0 p).Matches [] (j'.layText b 0 q) := by
      rw [h.layText_eq hbMarks 0 hq]
      exact hpages.layText j (.refl b) 0
    have htextMarks : shownMarks shown (j.layText b 0 p).output = [] := by
      rw [content_layText (isContent_shownMarks shown) b 0 hp.2, hp.1, hbMarks]
      rfl
    have hstep := h.agree_layCodeTag hj (h.clean.of_code? hcode).1 (endsBlank b)
      (htext.move (offset + byteSize b) (offset + byteSize b))
    have hmoved : shownMarks shown ({ j.layText b 0 p with position := offset + byteSize b } :
        Page).output = [] :=
      htextMarks
    have hkeep : ∀ r, j.layCodeTag code (endsBlank b)
      { j.layText b 0 p with position := offset + byteSize b } = .ok r →
        shownMarks shown r.output = [] ∧ EndsApart r.output :=
      fun r hr => h.shownMarks_layCodeTag hj hcode hmoved hr
    have ih := fun {p q : Page} hpages hp => ih (fun y hy => hfound y (List.mem_cons_of_mem _ hy))
      (offset + byteSize b + byteSize (markers.written digits)) (p := p) (q := q) hpages hp
    simp only [List.map_cons, pieceOf, hcode, hcode', Option.getD_some, layPieces]
    refine ⟨hstep.bind_of_ok fun r r' hr hpages => (ih hpages (hkeep r hr)).1, ?_⟩
    intro p' hp'
    obtain ⟨r, hr, hrest⟩ := bind_eq_ok hp'
    obtain ⟨r', -, hpages⟩ := exists_of_agree_ok (hr ▸ hstep)
    exact (ih hpages (hkeep r hr)).2 p' hrest

theorem agree_layTextToken (hj : j.IsPlain) {s : Text} (hs : HasCode j.table s)
    (hshown : ∀ d ∈ markers.found s, d ∈ shown) (offset tail : Nat) {p q : Page}
    (hpages : p.Matches [] q) (hp : shownMarks shown p.output = [] ∧ EndsApart p.output) :
    Agree [] (j.layTextToken offset s tail p) (j'.layTextToken offset s tail q) ∧
      ∀ p', j.layTextToken offset s tail p = .ok p' → shownMarks shown p'.output = [] := by
  have hs' : HasCode j'.table s := by
    intro d hd
    rw [h.code?_eq, Option.isSome_map]
    exact hs d hd
  obtain ⟨hbefore, htail⟩ := (markers_isLocal.covers).first?_split s
  have hlast := shownMarks_of_first?_eq_none shown htail
  obtain ⟨hagree, hkeep⟩ := h.agree_layPieces hj
    (fun x hx => ⟨hbefore x hx, hshown x.2 (List.mem_map_of_mem hx),
      hs x.2 (List.mem_map_of_mem hx)⟩) offset hpages hp
  rw [layTextToken_of_code hs, layTextToken_of_code hs']
  split
  · exact ⟨.error _ _, by simp⟩
  · refine ⟨hagree.bind_of_ok fun r r' hr hpages => .ok ?_, ?_⟩
    · have hr' : shownMarks shown r'.output = [] := by
        rw [← (hkeep r hr).1, hpages.output]
        rfl
      rw [h.layText_eq hlast tail hr']
      exact hpages.layText j (.refl _) tail
    · intro p' hp'
      obtain ⟨r, hr, hlay⟩ := bind_eq_ok hp'
      obtain ⟨hmarks, hend⟩ := hkeep r hr
      rw [← Except.ok.inj hlay, content_layText (isContent_shownMarks shown) _ tail hend,
        hmarks, hlast]
      rfl

theorem style_eq : j'.style = j.style := by rw [Job.style, Job.style, h.options]

theorem width_renderAttribute (hl : shownMarks shown (l.flatMap SpacedAttribute.text) = [])
    {x : SpacedAttribute} (hx : x ∈ l) :
    j'.width (renderAttribute none x.parsed) = j.width (renderAttribute none x.parsed) := by
  apply h.width_eq
  rw [(isContent_shownMarks shown).renderAttribute_eq x.isAttribute, shownMarks_written hl hx]
  exact fun _ _ => shownMarks_of_first?_eq_none shown (first?_singleton '"')

theorem formatAttributes_eq (hj : j.IsPlain) (hgap : ∀ c ∈ gap, isBlank c)
    (hplain : HasPlainBlanks (l.flatMap SpacedAttribute.text))
    (ht : shownMarks shown (Tag.opening name (l.flatMap SpacedAttribute.text) gap ending).written =
      []) (depth : Nat) :
    formatAttributes j.style j'.width name (trim (l.flatMap SpacedAttribute.text))
      ending.written depth =
      formatAttributes j.style j.width name (trim (l.flatMap SpacedAttribute.text)) ending.written
        depth := by
  have hattributes := shownMarks_attributes hgap ht
  have hparsed := (attributesOf_flatMap hplain).2
  apply formatAttributes_congr
  · rw [collapse_trim]
    exact h.width_eq (shownMarks_collapsedTag hgap ht hattributes)
  · intro a ha
    obtain ⟨x, hx, rfl⟩ := List.mem_map.mp (hparsed ▸ ha)
    rw [show j.style.ranking = none from hj.ranking]
    exact h.width_renderAttribute hattributes hx
  · intro a ha w hw
    obtain ⟨x, hx, rfl⟩ := List.mem_map.mp (hparsed ▸ ha)
    apply h.width_eq
    rw [show j.style.ranking = none from hj.ranking, tokensOf_none] at hw
    exact shownMarks_of_mem_words (shownMarks_value x.isAttribute
      (shownMarks_written hattributes hx)) hw

theorem laidTag_eq (hj : j.IsPlain) (hgap : ∀ c ∈ gap, isBlank c)
    (hplain : HasPlainBlanks (l.flatMap SpacedAttribute.text))
    (ht : shownMarks shown (Tag.opening name (l.flatMap SpacedAttribute.text) gap ending).written =
      []) (depth : Nat) :
    laidTag j'.style j'.width name (l.flatMap SpacedAttribute.text) ending depth =
      laidTag j.style j.width name (l.flatMap SpacedAttribute.text) ending depth := by
  rw [laidTag, laidTag, h.style_eq, h.formatAttributes_eq hj hgap hplain ht]

/-- A tag with no code that is shown is steady with the one table if it is with the other. -/
theorem isSteadyAt_iff (hj : j.IsPlain) {t : Tag}
    (hread : ∀ r, tags.run (t.written ++ r) = some (t, r)) (ht : t.IsPlain)
    (hmarks : shownMarks shown t.written = []) (depth : Nat) :
    j'.IsSteadyAt depth t ↔ j.IsSteadyAt depth t := by
  cases t with
  | closing lead name trail => exact Iff.rfl
  | opening name attributes gap ending =>
    obtain ⟨-, hgap⟩ := tag?_eq_some_isRead (hread [])
    obtain ⟨l, rfl⟩ := exists_attributes_of_run (hread [])
    have hattributes := shownMarks_attributes hgap hmarks
    have hunseen : ∀ x ∈ l, QuotesUnseen (shownMarks shown) x.parsed :=
      fun _ _ _ _ => shownMarks_of_first?_eq_none shown (first?_singleton '"')
    have hstyle : j.style.ranking = none := hj.ranking
    have hlaid := (isContent_shownMarks shown).formatAttributes_eq ht.1 hunseen hstyle j.width name
      ending.written depth
    rw [hattributes] at hlaid
    rw [Job.IsSteadyAt, Job.IsSteadyAt, h.style_eq]
    apply isSteady_congr
    · exact h.formatAttributes_eq hj hgap ht.1 hmarks depth
    · exact h.width_eq (shownMarks_collapsedTag hgap hmarks hattributes)
    · exact h.width_eq (shownMarks_collapsedTag hgap hmarks hlaid)
    · intro a ha
      rw [(attributesOf_flatMap ht.1).1] at ha
      obtain ⟨x, hx, rfl⟩ := List.mem_map.mp ha
      exact h.width_renderAttribute hattributes hx

theorem agree_layTag (hj : j.IsPlain) {t : Tag}
    (hread : ∀ r, tags.run (t.written ++ r) = some (t, r)) (ht : t.IsPlain)
    (hmarks : shownMarks shown t.written = []) (newLine : Bool) {p q : Page}
    (hpages : p.Matches [] q) (hp : shownMarks shown p.output = []) :
    Agree [] (j.layTag t newLine p) (j'.layTag t newLine q) ∧
      ∀ p', j.layTag t newLine p = .ok p' → shownMarks shown p'.output = [] ∧
        EndsApart p'.output := by
  have hparts := tag?_eq_some_isRead (hread [])
  cases t with
  | closing lead name trail =>
    refine ⟨Job.agree_layTag (.closing lead name trail) newLine hpages, fun p' hp' => ?_⟩
    have hcontent := content_layClosing (isContent_shownMarks shown) hparts.1 hparts.2.2 hp'
    rwa [hp, hmarks] at hcontent
  | opening name attributes gap ending =>
    obtain ⟨l, rfl⟩ := exists_attributes_of_run (hread [])
    refine ⟨?_, fun p' hp' => ?_⟩
    · rw [layTag, layTag, layOpening_eq hparts.1, layOpening_eq hparts.1,
        h.laidTag_eq hj hparts.2 ht.1 hmarks, hpages.depth_eq]
      exact .ok (hpages.putOpening name ending _ newLine)
    · have hunseen : ∀ x ∈ l, QuotesUnseen (shownMarks shown) x.parsed :=
        fun _ _ _ _ => shownMarks_of_first?_eq_none shown (first?_singleton '"')
      have hcontent := content_layOpening (isContent_shownMarks shown) hj hparts.2 ht.1 hunseen hp'
      rwa [hp, hmarks] at hcontent

theorem agree_layContent (hj : j.IsPlain) {container : Option Text} {s : Text}
    (hs : IsPlainContent j.table container s) (hshown : ShownContent shown container s) (tail : Nat)
    {p q : Page} (hpages : p.Matches [] q)
    (hp : shownMarks shown p.output = [] ∧ EndsApart p.output) :
    Agree [] (j.layContent container s tail p) (j'.layContent container s tail q) ∧
      ∀ p', j.layContent container s tail p = .ok p' → shownMarks shown p'.output = [] := by
  cases container with
  | none => exact h.agree_layTextToken hj (hs.code rfl) hshown 0 tail hpages hp
  | some name =>
    refine ⟨.ok (hpages.append _), fun p' hp' => ?_⟩
    have hmarks := isContent_shownMarks shown
    have hraw : shownMarks shown s = [] := hshown
    rw [← Except.ok.inj hp', Page.output_append, hmarks.append_of_endsApart hp.2, hmarks.trimEnd_eq,
      hp.1, hraw]
    rfl

/-- Rows are laid out alike when the code tags of their texts are as they are put out, and no such
code is left in the output by its marker. -/
theorem agree_layRows (hj : j.IsPlain) {container : Option Text} {x : Text}
    {rows : List (Tag × Text)} (hread : CanRead container x rows)
    (hplain : PlainRows j.table container x rows) (hshown : ShownRows shown container x rows)
    {p q : Page} (hpages : p.Matches [] q)
    (hp : shownMarks shown p.output = [] ∧ EndsApart p.output) :
    Agree [] (j.layRows container x rows p) (j'.layRows container x rows q) ∧
      ∀ p', j.layRows container x rows p = .ok p' → shownMarks shown p'.output = [] := by
  induction rows generalizing container x p q with
  | nil => exact h.agree_layContent hj hplain hshown 0 hpages hp
  | cons row rows ih =>
    obtain ⟨t, u⟩ := row
    obtain ⟨-, htag, hrest⟩ := hread
    obtain ⟨hx, ht, hplain⟩ := hplain
    obtain ⟨hxShown, htShown, hshown⟩ := hshown
    have hrun : ∀ r, tags.run (t.written ++ r) = some (t, r) := fun r => tags_run_of_tagsIn (htag r)
    obtain ⟨hcontent, hkeep⟩ := h.agree_layContent hj hx hxShown
      (if endsBlank x then 0 else gluedRows ((t, u) :: rows)) hpages hp
    refine ⟨?_, ?_⟩
    · refine hcontent.bind_of_ok fun r r' hr hpages => ?_
      obtain ⟨hlayTag, hkeepTag⟩ := h.agree_layTag hj hrun ht htShown (endsBlank x) hpages
        (hkeep r hr)
      exact hlayTag.bind_of_ok fun v v' hv hpages =>
        (ih hrest hplain hshown hpages (hkeepTag v hv)).1
    · intro p' hp'
      obtain ⟨r, hr, hp'⟩ := bind_eq_ok hp'
      obtain ⟨v, hv, hp'⟩ := bind_eq_ok hp'
      obtain ⟨-, hkeepTag⟩ := h.agree_layTag hj hrun ht htShown (endsBlank x) (.refl r) (hkeep r hr)
      exact (ih hrest hplain hshown (.refl v) (hkeepTag v hv)).2 p' hp'

theorem markerBrackets_eq (probe : Text → Bool) (d : Text) :
    markerBrackets probe j'.table d = markerBrackets probe j.table d := by
  rw [markerBrackets, markerBrackets, h.code?_eq]
  cases hcode : j.table.code? d with
  | none => rfl
  | some code =>
    obtain ⟨tag, tag', htag, -, htag', -, hsame, -, -, -⟩ :=
      exists_tag_renderedCode (h.clean.of_code? hcode).1
    by_cases hd : d ∈ shown
    · simp [hd, codeBrackets, htag, htag', hsame]
    · simp [hd]

/-- Rows are steady with the one table if they are with the other. -/
theorem isSteadyFrom_iff (hj : j.IsPlain) {container : Option Text} {x : Text}
    {rows : List (Tag × Text)} (hread : CanRead container x rows)
    (hplain : PlainRows j.table container x rows) (hshown : ShownRows shown container x rows)
    (frames : List Frame) :
    j'.IsSteadyFrom frames (leadingLexeme container x ++ rowsLexemes rows) ↔
      j.IsSteadyFrom frames (leadingLexeme container x ++ rowsLexemes rows) := by
  have htags : ∀ t, .tag t ∈ leadingLexeme container x ++ rowsLexemes rows →
      ∀ depth, j'.IsSteadyAt depth t ↔ j.IsSteadyAt depth t := by
    have hleading : ∀ {container : Option Text} {x : Text} {t : Tag},
        .tag t ∉ leadingLexeme container x := by
      intro container x t
      by_cases hx : x = []
      · simp [hx, leadingLexeme_nil]
      · cases container <;> simp [leadingLexeme_of_ne_nil _ hx]
    induction rows generalizing container x with
    | nil => simp [rowsLexemes, hleading]
    | cons row rows ih =>
      obtain ⟨t, u⟩ := row
      obtain ⟨-, htag, hrest⟩ := hread
      intro t' ht'
      rw [rowsLexemes_cons] at ht'
      rcases List.mem_cons.mp ((List.mem_append.mp ht').resolve_left hleading) with ht' | ht'
      · obtain rfl := Lexeme.tag.inj ht'
        exact h.isSteadyAt_iff hj (fun r => tags_run_of_tagsIn (htag r)) hplain.2.1 hshown.2.1
      · exact ih hrest hplain.2.2 hshown.2.2 t' ht'
  have hplaced := placedTags_congr (h.markerBrackets_eq j.options.probe) frames
    (leadingLexeme container x ++ rowsLexemes rows)
  constructor
  · rintro ⟨hsteady, hfinish⟩
    rw [h.options, hplaced] at hsteady
    exact ⟨fun a ha => (htags a.2 (mem_of_mem_placedTags ha) a.1).mp (hsteady a ha), hfinish⟩
  · rintro ⟨hsteady, hfinish⟩
    refine ⟨?_, hfinish⟩
    rw [h.options, hplaced]
    exact fun a ha => (htags a.2 (mem_of_mem_placedTags ha) a.1).mpr (hsteady a ha)

end Job.Shows

section Restored

/-- Once the code of a text is put back, nothing is left to put back. -/
theorem found_restore {table : MarkerTable} (htable : IsCleanTable table) {s : Text}
    (hs : HasCode table s) :
    markers.found (table.restore s) = [] := by
  obtain ⟨hbefore, htail⟩ := (markers_isLocal.covers).first?_split s
  have hcode : ∀ x ∈ (markers.split s).1, IsCodeTag ((table.code? x.2).getD (markers.written x.2)) ∧
      markers.first? ((table.code? x.2).getD (markers.written x.2)) = none := by
    intro x hx
    obtain ⟨code, hcode⟩ := Option.isSome_iff_exists.mp (hs x.2 (List.mem_map_of_mem hx))
    rw [hcode]
    exact htable.of_code? hcode
  have hflat := Recogniser.found_flatMap markers_isLocal
    (l := (markers.split s).1.map fun x => (x.1, (table.code? x.2).getD (markers.written x.2)))
    (fun y hy => by
      obtain ⟨x, hx, rfl⟩ := List.mem_map.mp hy
      exact (hcode x hx).1.apart) (markers.split s).2
  rw [List.flatMap_map, List.flatMap_map] at hflat
  rw [restore_of_literals_nil htable.literals]
  refine hflat.trans ?_
  rw [found_eq_nil_iff.mpr htail, List.append_nil, List.flatMap_eq_nil_iff]
  intro x hx
  rw [found_eq_nil_iff.mpr (hbefore x hx), found_eq_nil_iff.mpr (hcode x hx).2]
  rfl

/-- The markers stand for code tags as they are put out. -/
def IsShown (table : MarkerTable) (shown : List Text) : Prop :=
  ∀ d ∈ shown, ∃ code, table.code? d = some code ∧ renderedCode code = code

theorem isShown_rendered {table : MarkerTable} (htable : IsCleanTable table) {shown : List Text}
    (hshown : ∀ d ∈ shown, (table.code? d).isSome) : IsShown (table.rendered shown) shown := by
  intro d hd
  obtain ⟨code, hcode⟩ := Option.isSome_iff_exists.mp (hshown d hd)
  refine ⟨renderedCode code, ?_, renderedCode_renderedCode (htable.of_code? hcode).1⟩
  rw [code?_rendered htable.literals, hcode, Option.map_some, if_pos hd]

theorem restore_shownContent {table : MarkerTable} (htable : IsCleanTable table)
    {container : Option Text} {x : Text} (hshown : IsShown table (contentMarkers container x)) :
    table.restore (shownContent table container x) = table.restore x := by
  cases container with
  | some name => rfl
  | none =>
    have hself : shownContent table none x = table.restore x := by
      rw [shownContent, restore_of_literals_nil htable.literals, restoreFrom]
      apply Recogniser.replace_congr
      intro d hd
      obtain ⟨code, hcode, hrender⟩ := hshown d hd
      rw [shownCode, hcode]
      exact hrender
    have hcode : HasCode table x := by
      intro d hd
      obtain ⟨code, hcode, -⟩ := hshown d hd
      rw [hcode]
      rfl
    rw [hself, restore_of_literals_nil htable.literals (table.restore x)]
    exact Recogniser.replace_of_first?_eq_none _ (found_eq_nil_iff.mp (found_restore htable hcode))

/-- The rows as they are put out are the rows as they are written, once the code is put back. -/
theorem restore_shownRows {table : MarkerTable} (htable : IsCleanTable table)
    {container : Option Text} {x : Text} {rows : List (Tag × Text)}
    (hshown : IsShown table (textMarkers container x rows)) :
    table.restore (shownRows table container x rows) = table.restore (x ++ rowsWritten rows) := by
  induction rows generalizing container x with
  | nil =>
    rw [rowsWritten, List.flatMap_nil, List.append_nil]
    exact restore_shownContent htable hshown
  | cons row rows ih =>
    obtain ⟨t, u⟩ := row
    have hfirst := restore_shownContent htable fun d hd => hshown d (List.mem_append_left _ hd)
    have hrest := ih fun d hd => hshown d (List.mem_append_right _ hd)
    have hparted : ∀ u v, table.restore (u ++ (t.written ++ v)) =
        table.restore u ++ (table.restore t.written ++ table.restore v) := by
      intro u v
      simp only [restore_of_literals_nil htable.literals]
      exact (apart_tag t).replace_append markers_isLocal _ u v
    rw [shownRows, rowsWritten_cons, hparted, hparted, hfirst, hrest]

end Restored

end ErbLayout
