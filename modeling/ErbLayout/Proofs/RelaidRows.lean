import ErbLayout.Proofs.RelaidTag

/-!
What is read of rows that are laid out. Each content and each tag of the rows comes out as a content
and a tag with the same words and the same markers, the last content ends with one line feed, and
the contents are laid out alike the second time. Put together, the layout of rows is the form of
rows that can be read.
-/

namespace ErbLayout

open Text Markup Code Layout

section Contents

/-- Other blanks at the end of a text make no occurrence of what never ends with a blank. -/
theorem first?_trimEnd_append {α : Type} {p : Recogniser α} (hp : p.IsLocal)
    (hend : ∀ s a r, p.run s = some (a, r) → endsBlank (p.written a) = false) {s b : Text}
    (hs : p.first? s = none) (hb : ∀ c ∈ b, isBlank c) : p.first? (trimEnd s ++ b) = none := by
  rw [Recogniser.first?_eq_none_iff] at hs ⊢
  intro v hv
  cases hrun : p.run v with
  | none => rfl
  | some x =>
    obtain ⟨heq, hne⟩ := p.sound v x.1 x.2 hrun
    have hvisible := hend v x.1 x.2 hrun
    have hblank : ∀ {u : Text}, u ≠ [] → (∀ c ∈ u, isBlank c) → u <:+ p.written x.1 → False := by
      rintro u hu hall ⟨w, hw⟩
      rw [← hw, endsBlank_append w hu, endsBlank_of_isBlank hu hall] at hvisible
      simp at hvisible
    rcases suffix_append_cases hv with hv | ⟨w, -, hw, rfl⟩
    · exact (hblank hne (fun c hc => hb c (hv.subset (heq ▸ List.mem_append_left _ hc)))
        (List.suffix_refl _)).elim
    · -- what is read ends before the blanks, so it is read in `s` as well
      obtain ⟨k, hk⟩ : p.written x.1 <+: w := by
        rcases List.append_eq_append_iff.mp heq with ⟨k, hk, hbk⟩ | ⟨k, hk, -⟩
        · by_cases hnil : k = []
          · exact ⟨[], by rw [hk, hnil, List.append_nil, List.append_nil]⟩
          · exact (hblank hnil (fun c hc => hb c (hbk ▸ List.mem_append_left _ hc))
              ⟨w, hk.symm⟩).elim
        · exact ⟨k, hk.symm⟩
      obtain ⟨trail, htrail, -⟩ := exists_trimEnd_append s
      obtain ⟨u, hu⟩ := hw
      have hread := hp _ _ _ hrun (k ++ trail)
      have hsuffix : p.written x.1 ++ (k ++ trail) <:+ s := ⟨u, by rw [htrail, ← hu, ← hk]; simp⟩
      rw [hs _ hsuffix] at hread
      simp at hread

def shownContent (table : MarkerTable) : Option Text → Text → Text
  | none, s => markers.replace (shownCode table) s
  | some _, s => s

/-- Nothing in the content begins a code tag, and the markers of a text all stand for code. -/
structure IsPlainContent (table : MarkerTable) (container : Option Text) (s : Text) : Prop where
  noOpening : holdsOpening s = false
  code : container = none → HasCode table s

/-- What is read of a content that is laid out. -/
structure RelaidContent (container : Option Text) (x x' : Text) : Prop where
  clear : IsClear container x'
  noOpening : holdsOpening x' = false
  found : markers.found x' = markers.found x
  words : container = none → words x' = words x
  starts : container = none → x ≠ [] → startsBlank x' = startsBlank x

theorem RelaidText.words_eq {s t : Text} (h : RelaidText s t) : words t = words s := by
  rw [← words_squeeze, ← h.squeeze_eq, words_squeeze]

theorem RelaidText.relaidContent {s t : Text} (h : RelaidText s t) (hclear : IsClear none s)
    (hopening : holdsOpening s = false) : RelaidContent none s t := by
  refine ⟨?_, (holdsOpening_congr h.words_eq).trans hopening, h.found_eq.symm, fun _ => h.words_eq,
    fun _ _ => ?_⟩
  · exact (holdsTagSign_congr h.words_eq).trans hclear
  · rw [← startsBlank_squeeze, ← h.squeeze_eq, startsBlank_squeeze]

theorem relaidContent_raw {name x gap : Text} (hclear : IsClear (some name) x)
    (hx : holdsOpening x = false) (hgap : ∀ c ∈ gap, c ∈ plainBlanks) :
    RelaidContent (some name) x (trimEnd x ++ gap) := by
  have hblank : ∀ c ∈ gap, isBlank c := fun c hc => isBlank_of_mem_plainBlanks (hgap c hc)
  refine ⟨?_, ?_, ?_, by simp, by simp⟩
  · exact first?_trimEnd_append (closers_isLocal name)
      (fun _ t _ _ => endsBlank_tag t) hclear hblank
  · rw [holdsOpening_congr (words_append_blank _ hblank), holdsOpening_congr (words_trimEnd x)]
    exact hx
  · apply found_eq_of_content
    have hcontent := isContent_markers.append_blank (trimEnd x) hblank
    rw [isContent_markers.trimEnd_eq] at hcontent
    exact hcontent

theorem IsGap.trimEnd_append {x gap : Text} (h : IsGap x gap) :
    (trimEnd x ++ gap).isEmpty = x.isEmpty ∧ endsBlank (trimEnd x ++ gap) = endsBlank x := by
  cases hx : endsBlank x with
  | false =>
    rw [h.glued hx, List.append_nil, trimEnd_eq_self hx]
    exact ⟨rfl, hx⟩
  | true =>
    have hne := (h.apart hx).1
    have hxne : x ≠ [] := by
      rintro rfl
      exact absurd hx (by decide)
    refine ⟨?_, ?_⟩
    · rw [List.isEmpty_eq_false_iff.mpr hxne, List.isEmpty_eq_false_iff]
      exact List.append_ne_nil_of_right_ne_nil _ hne
    · rw [endsBlank_append _ hne, endsBlank_of_isBlank hne h.isBlank]

namespace Job

variable {j : Job}

/-- A content and the gap after it are put out as a content that is laid out alike. -/
theorem exists_relaid_layContent (hj : j.IsPlain) (hcodes : j.ReadsCode) {container : Option Text}
    {x gap : Text} (hclear : IsClear container x) (hx : IsPlainContent j.table container x)
    (hgap : IsGap x gap) {tail : Nat} {p q : Page}
    (hlay : j.layContent container x tail p = .ok q) :
    ∃ x', RelaidContent container x x' ∧ x'.isEmpty = x.isEmpty ∧ endsBlank x' = endsBlank x ∧
      q.output ++ gap = p.output ++ shownContent j.table container x' ∧
      ∀ r : Page, p.Matches [] r → Agree [] (.ok q) (j.layContent container x' tail r) := by
  cases container with
  | none =>
    have hcode := hx.code rfl
    have hlay : j.layTextToken 0 x tail p = .ok q := hlay
    obtain ⟨hgood, r, hpieces, rfl⟩ := exists_of_layTextToken_ok hcode hlay
    obtain ⟨t, ht, hout⟩ := exists_relaid_pieces hj.formatCode hcodes hcode hgap tail hpieces
    refine ⟨t, ht.relaidContent hclear hx.noOpening, ?_, ?_, hout, ?_⟩
    · rw [Bool.eq_iff_iff, List.isEmpty_iff, List.isEmpty_iff, ← squeeze_eq_nil_iff,
        ← ht.squeeze_eq, squeeze_eq_nil_iff]
    · rw [← endsBlank_squeeze, ← ht.squeeze_eq, endsBlank_squeeze]
    · intro r' hpages
      obtain ⟨q', hq', hmatch⟩ := exists_layTextToken_relaid ht hcode (ht.occursIn_eq_false hgood)
        tail hpages hpieces
      rw [layContent, hq']
      exact .ok hmatch
  | some name =>
    obtain rfl := Except.ok.inj hlay
    have hplain : ∀ c ∈ gap, c ∈ plainBlanks :=
      fun c hc => hgap.mem_break (List.mem_append_right _ hc)
    obtain ⟨hempty, hend⟩ := hgap.trimEnd_append
    refine ⟨trimEnd x ++ gap, relaidContent_raw hclear hx.noOpening hplain, hempty, hend, ?_, ?_⟩
    · rw [Page.output_append, List.append_assoc]
      rfl
    · intro r hpages
      rw [layContent, trimEnd_append_blank _ hgap.isBlank, trimEnd_eq_self (endsBlank_trimEnd x)]
      exact .ok (hpages.append _)

end Job

end Contents

section Last

def capped (s : Text) : Text := trimEnd s ++ ['\n']

theorem isGap_capped (s : Text) : IsGap (capped s) ['\n'] where
  glued h := by
    rw [capped, endsBlank_concat] at h
    exact absurd h (by decide)
  apart _ := ⟨List.cons_ne_nil _ _, by simp; decide, rfl⟩

theorem paragraphBreak_capped (s : Text) : paragraphBreak (capped s) = [] := by
  have htrail : trailingBlanks (capped s) = ['\n'] := trailingBlanks_append (endsBlank_trimEnd s)
    (by simp; decide)
  rw [paragraphBreak, endsParagraph, htrail]
  rfl

theorem words_capped (s : Text) : words (capped s) = words s := by
  rw [capped, words_append_blank _ (by simp; decide), words_trimEnd]

theorem startsBlank_capped {s : Text} (hs : s ≠ []) : startsBlank (capped s) = startsBlank s := by
  obtain ⟨trail, htrail, hblank⟩ := exists_trimEnd_append s
  by_cases hnil : trimEnd s = []
  · obtain ⟨c, u, rfl⟩ := List.exists_cons_of_ne_nil hs
    have hc : isBlank c := List.all_eq_true.mp (trimEnd_eq_nil_iff.mp hnil) c List.mem_cons_self
    rw [capped, hnil, startsBlank_cons, hc]
    rfl
  · rw [capped, startsBlank_append hnil]
    conv_rhs => rw [htrail, startsBlank_append hnil]

theorem squeeze_capped (s : Text) : squeeze (capped s) = squeeze (s ++ ['\n']) := by
  apply squeeze_congr
  · rw [words_capped, words_append_blank _ (by simp; decide)]
  · by_cases hs : s = []
    · rw [hs]
      rfl
    · rw [startsBlank_capped hs, startsBlank_append hs]
  · rw [capped, endsBlank_concat, endsBlank_concat]

/-- The blanks at the end of a last text are not seen in its lines. -/
theorem Job.output_layText_capped (j : Job) (s : Text) (p : Page) :
    (j.layText s 0 p).output = (j.layText (capped s) 0 p).output ++ paragraphBreak s := by
  rw [j.output_layText, j.output_layText, paragraphBreak_capped, List.append_nil, List.append_assoc]
  congr 2
  by_cases hnil : trimEnd s = []
  · -- no words, so no lines
    have hwords : words s = [] := by rw [← words_trimEnd, hnil, words_nil]
    rw [linesOf, linesOf, words_capped, hwords]
    rfl
  · have hne : s ≠ [] := by
      rintro rfl
      exact hnil rfl
    rw [linesOf, linesOf, words_capped, startsBlank_capped hne]

theorem Job.endsBlank_layText_capped (j : Job) (s : Text) {p : Page}
    (hp : endsBlank p.output = false) :
    endsBlank (j.layText (capped s) 0 p).output = false := by
  have hlines : endsBlank (laidLines p.depth (startsBlank (capped s))
      (j.linesOf (capped s) 0 p)) = false :=
    endsBlank_laidLines p.depth _ (packed_words j.width _ (j.room p) 0 (capped s)).2
  rw [j.output_layText, paragraphBreak_capped, List.append_nil]
  by_cases hnil : laidLines p.depth (startsBlank (capped s)) (j.linesOf (capped s) 0 p) = []
  · rw [hnil, List.append_nil]
    exact hp
  · rw [endsBlank_append _ hnil]
    exact hlines

theorem split_capped (s : Text) :
    markers.split (capped s) = ((markers.split s).1, capped (markers.split s).2) := by
  obtain ⟨hbefore, hlast⟩ := markers_isLocal.covers.first?_split s
  have hfound : ∀ x ∈ (markers.split s).1, markers.first? x.1 = none ∧ IsDigits x.2 :=
    fun x hx => ⟨hbefore x hx, isDigits_of_mem_split s x hx⟩
  have hmarkers : ∀ t : Text, words t = words (markers.split s).2 → markers.first? t = none := by
    intro t ht
    have hcontent : (markers.found t).flatMap markers.written =
        (markers.found (markers.split s).2).flatMap markers.written := by
      have hwords := isContent_markers.words_eq t
      rw [ht, isContent_markers.words_eq] at hwords
      exact hwords.symm
    rw [← found_eq_nil_iff, found_eq_of_content hcontent, found_eq_nil_iff]
    exact hlast
  have hjoin : capped s = joinMarkers (markers.split s).1 (capped (markers.split s).2) := by
    have htrimmed := split_joinMarkers hfound (hmarkers _ (words_trimEnd _))
    have hend : endsBlank (joinMarkers (markers.split s).1 (trimEnd (markers.split s).2)) =
        false := by
      rw [← endsBlank_split, htrimmed]
      exact endsBlank_trimEnd _
    obtain ⟨trail, htrail, hblank⟩ := exists_trimEnd_append (markers.split s).2
    have hs : s = joinMarkers (markers.split s).1 (trimEnd (markers.split s).2) ++ trail := by
      conv_lhs => rw [← joinMarkers_split s, htrail]
      simp [joinMarkers]
    have htrim : trimEnd s = joinMarkers (markers.split s).1 (trimEnd (markers.split s).2) := by
      conv_lhs => rw [hs, trimEnd_append_blank _ hblank, trimEnd_eq_self hend]
    rw [capped, htrim]
    simp [joinMarkers, capped]
  rw [hjoin]
  exact split_joinMarkers hfound (hmarkers _ (words_capped _))

namespace Job

variable {j : Job}

/-- After code tags the output ends with one, so with no blank. -/
theorem endsBlank_layPieces (hj : ∀ code width, j.options.formatCode code width = none)
    (hcodes : j.ReadsCode) {found : List (Text × Text)}
    (hfound : ∀ x ∈ found, (j.table.code? x.2).isSome) {offset : Nat} {p q : Page}
    (hp : endsBlank p.output = false)
    (hlay : j.layPieces offset (found.map (pieceOf j.table)) p = .ok q) :
    endsBlank q.output = false := by
  induction found generalizing offset p with
  | nil =>
    obtain rfl := Except.ok.inj hlay
    exact hp
  | cons x found ih =>
    obtain ⟨b, digits⟩ := x
    obtain ⟨code, hcode⟩ := Option.isSome_iff_exists.mp (hfound _ List.mem_cons_self)
    obtain ⟨tag, htag, hread⟩ := hcodes digits code hcode
    obtain ⟨r, hstep, hrest⟩ := bind_eq_ok hlay
    dsimp only [pieceOf] at hcode hstep
    rw [hcode, Option.getD_some] at hstep
    obtain ⟨r', -, hr⟩ := exists_emit_of_layCodeTag hj htag hstep
    refine ih (fun y hy => hfound y (List.mem_cons_of_mem _ hy)) ?_ hrest
    have hcodeTag := isEnclosed_render hread tag.code
    rw [hr, output_emit_enclosed r' hcodeTag, ← List.append_assoc]
    exact hcodeTag.isVisible.endsBlank_append _

/-- Pieces of a text that are laid out leave a last running text that is put out with a line feed at
its end as it is without the blanks it ends with. -/
theorem output_layText_last (hj : ∀ code width, j.options.formatCode code width = none)
    (hcodes : j.ReadsCode) {s : Text} (hs : HasCode j.table s) {p r : Page}
    (hp : endsBlank p.output = false)
    (hpieces : j.layPieces 0 ((markers.split s).1.map (pieceOf j.table)) p = .ok r) :
    (j.layText (capped (markers.split s).2) 0 r).output =
      trimEnd (j.layText (markers.split s).2 0 r).output := by
  have hr := endsBlank_layPieces hj hcodes (fun x hx => hs x.2 (List.mem_map_of_mem hx)) hp hpieces
  have hbreak : ∀ c ∈ paragraphBreak (markers.split s).2, isBlank c :=
    fun c hc => isBlank_of_mem_plainBlanks (mem_plainBlanks_of_mem_paragraphBreak hc)
  have hend := j.endsBlank_layText_capped (markers.split s).2 hr
  rw [j.output_layText_capped (markers.split s).2, trimEnd_append_blank _ hbreak,
    trimEnd_eq_self hend]

/-- A last text is put out, with a line feed, as a text that is laid out alike unless the line feed
makes a bad attribute. -/
theorem exists_relaid_lastText (hj : j.IsPlain) (hcodes : j.ReadsCode) {x : Text}
    (hclear : IsClear none x) (hx : IsPlainContent j.table none x) {p q : Page}
    (hp : endsBlank p.output = false) (hlay : j.layContent none x 0 p = .ok q) :
    ∃ x', RelaidContent none x x' ∧ badAttributes.occursIn x' =
      badAttributes.occursIn (squeeze (x ++ ['\n'])) ∧
      trimEnd q.output ++ ['\n'] = p.output ++ shownContent j.table none x' ∧
      (badAttributes.occursIn x' = false → ∀ r : Page, p.Matches [] r →
        ∃ r', j.layContent none x' 0 r = .ok r' ∧ r'.blocks = q.blocks ∧
          r'.output = trimEnd q.output) := by
  have hcode := hx.code rfl
  obtain ⟨-, r, hpieces, rfl⟩ := exists_of_layTextToken_ok hcode hlay
  have hcapped : HasCode j.table (capped x) := by
    have hfound : markers.found (capped x) = markers.found x := by
      rw [Recogniser.found, split_capped]; rfl
    rw [HasCode, hfound]
    exact hcode
  have hsplit := split_capped x
  have hpieces' : j.layPieces 0 ((markers.split (capped x)).1.map (pieceOf j.table)) p = .ok r := by
    rw [hsplit]
    exact hpieces
  have hout' := output_layText_last hj.formatCode hcodes hcode hp hpieces
  obtain ⟨t, ht, hout⟩ := exists_relaid_pieces hj.formatCode hcodes hcapped (isGap_capped x)
    0 hpieces'
  rw [hsplit, hout'] at hout
  have hclear' : IsClear none (capped x) := (holdsTagSign_congr (words_capped x)).trans hclear
  have hopening : holdsOpening (capped x) = false :=
    (holdsOpening_congr (words_capped x)).trans hx.noOpening
  obtain ⟨hclearText, hnoOpening, hfound, hwords, hstarts⟩ := ht.relaidContent hclear' hopening
  refine ⟨t, ⟨hclearText, hnoOpening, ?_, fun _ => ?_, fun _ hne => ?_⟩, ?_, hout, ?_⟩
  · rw [hfound, Recogniser.found, hsplit]
    rfl
  · rw [hwords rfl, words_capped]
  · rw [hstarts rfl (List.append_ne_nil_of_right_ne_nil _ (List.cons_ne_nil _ _)),
      startsBlank_capped hne]
  · rw [ht.occursIn_eq, squeeze_capped]
  · intro hgood r' hpages
    obtain ⟨q', hq', hmatch⟩ := exists_layTextToken_relaid ht hcapped hgood 0 hpages hpieces'
    rw [hsplit] at hmatch
    refine ⟨q', hq', ?_, ?_⟩
    · rw [← hmatch.blocks, blocks_layText, blocks_layText]
    · rw [← hout', hmatch.output, List.nil_append]

/-- Raw content is put out at the end, with a line feed, as raw content that is laid out alike. -/
theorem exists_relaid_lastRaw {name x : Text} (hclear : IsClear (some name) x)
    (hx : holdsOpening x = false) {p q : Page} (hp : endsBlank p.output = false)
    (hlay : j.layContent (some name) x 0 p = .ok q) :
    ∃ x', RelaidContent (some name) x x' ∧ trimEnd q.output ++ ['\n'] =
      p.output ++ shownContent j.table (some name) x' ∧
      ∀ r : Page, p.Matches [] r →
        ∃ r', j.layContent (some name) x' 0 r = .ok r' ∧ r'.blocks = q.blocks ∧
          r'.output = trimEnd q.output := by
  have hline : ∀ c ∈ ['\n'], c ∈ plainBlanks := by simp; decide
  obtain rfl := Except.ok.inj hlay
  have htrim : trimEnd (p.append (trimEnd x)).output = p.output ++ trimEnd x := by
    rw [Page.output_append]
    apply trimEnd_eq_self
    by_cases hnil : trimEnd x = []
    · rw [hnil, List.append_nil]
      exact hp
    · rw [endsBlank_append _ hnil]
      exact endsBlank_trimEnd x
  refine ⟨capped x, relaidContent_raw hclear hx hline, ?_, ?_⟩
  · rw [htrim, List.append_assoc]
    rfl
  · intro r hpages
    refine ⟨_, rfl, hpages.blocks.symm, ?_⟩
    rw [htrim, capped, trimEnd_append_blank _ fun c hc => isBlank_of_mem_plainBlanks (hline c hc),
      trimEnd_eq_self (endsBlank_trimEnd x), Page.output_append, hpages.output, List.nil_append]

end Job

end Last

section Rows

def shownRows (table : MarkerTable) : Option Text → Text → List (Tag × Text) → Text
  | container, x, [] => shownContent table container x
  | container, x, (t, u) :: rows =>
    shownContent table container x ++ (t.written ++ shownRows table t.rawContainer? u rows)

def PlainRows (table : MarkerTable) : Option Text → Text → List (Tag × Text) → Prop
  | container, x, [] => IsPlainContent table container x
  | container, x, (t, u) :: rows =>
    IsPlainContent table container x ∧ t.IsPlain ∧ PlainRows table t.rawContainer? u rows

def textMarkers : Option Text → Text → List (Tag × Text) → List Text
  | container, x, [] => contentMarkers container x
  | container, x, (t, u) :: rows => contentMarkers container x ++ textMarkers t.rawContainer? u rows

theorem PlainRows.isSome_code? {table : MarkerTable} {container : Option Text} {x : Text}
    {rows : List (Tag × Text)} (h : PlainRows table container x rows) :
    ∀ d ∈ textMarkers container x rows, (table.code? d).isSome := by
  have hcontent : ∀ {container : Option Text} {x : Text}, IsPlainContent table container x →
      ∀ d ∈ contentMarkers container x, (table.code? d).isSome := by
    intro container x hx d hd
    cases container with
    | none => exact hx.code rfl d hd
    | some name => simp [contentMarkers] at hd
  induction rows generalizing container x with
  | nil => exact hcontent h
  | cons row rows ih =>
    intro d hd
    rcases List.mem_append.mp hd with hd | hd
    · exact hcontent h.1 d hd
    · exact ih h.2.2 d hd

/-- What is read of rows that are laid out. -/
structure RelaidRows (container : Option Text) (x : Text) (rows : List (Tag × Text)) (x' : Text)
    (rows' : List (Tag × Text)) : Prop where
  reads : CanRead container x' rows'
  noOpening : holdsOpening (x' ++ rowsWritten rows') = false
  found : markers.found (x' ++ rowsWritten rows') = markers.found (x ++ rowsWritten rows)
  text : textMarkers container x' rows' = textMarkers container x rows
  words : container = none → words x' = words x
  starts : container = none → x ≠ [] ∨ rows ≠ [] → startsBlank x' = startsBlank x
  ends : rows ≠ [] → endsBlank x' = endsBlank x
  glue : gluedRows rows' = gluedRows rows
  empty : x'.isEmpty = x.isEmpty ∨ rows = []

theorem apart_tag (t : Tag) : markers.Apart t.written := by
  obtain ⟨u, hu⟩ := isEnclosed_written t
  exact apart_of_not_isMarkerChar hu (v := '<' :: u) (by rw [hu]; rfl) (by decide) (by decide)

theorem RelaidTag.tagsIn_run {t t' : Tag} (h : RelaidTag t t') {container : Option Text}
    (ht : ∀ r, (tagsIn container).run (t.written ++ r) = some (t, r)) (r : Text) :
    (tagsIn container).run (t'.written ++ r) = some (t', r) := by
  cases container with
  | none => exact h.reads r
  | some name =>
    obtain ⟨-, hcloses⟩ := Option.filter_eq_some_iff.mp (ht r)
    have hcloses' : t'.closes name := (h.closes name).trans hcloses
    exact Option.filter_eq_some_iff.mpr ⟨h.reads r, hcloses'⟩

theorem RelaidContent.contentMarkers_eq {container : Option Text} {x x' : Text}
    (h : RelaidContent container x x') :
    contentMarkers container x' = contentMarkers container x := by
  cases container with
  | none => exact h.found
  | some name => rfl

theorem RelaidRows.nil {container : Option Text} {x x' : Text} (h : RelaidContent container x x') :
    RelaidRows container x [] x' [] where
  reads := h.clear
  noOpening := by simpa [rowsWritten] using h.noOpening
  found := by simpa [rowsWritten] using h.found
  text := h.contentMarkers_eq
  words := h.words
  starts hcontainer hne := h.starts hcontainer (hne.resolve_right (by simp))
  ends h := absurd rfl h
  glue := rfl
  empty := Or.inr rfl

theorem RelaidRows.cons {container : Option Text} {x x' u u' : Text} {t t' : Tag}
    {rows rows' : List (Tag × Text)}
    (hread : ∀ r, (tagsIn container).run (t.written ++ r) = some (t, r))
    (hx : RelaidContent container x x') (hempty : x'.isEmpty = x.isEmpty)
    (hend : endsBlank x' = endsBlank x) (ht : RelaidTag t t')
    (hrows : RelaidRows t.rawContainer? u rows u' rows') :
    RelaidRows container x ((t, u) :: rows) x' ((t', u') :: rows') where
  reads := by
    refine ⟨hx.clear, ht.tagsIn_run hread, ?_⟩
    rw [ht.raw]
    exact hrows.reads
  noOpening := by
    obtain ⟨v, hv⟩ := isEnclosed_written t'
    rw [rowsWritten_cons]
    rw [holdsOpening_append (Or.inr ?_), holdsOpening_append (Or.inl ?_), hx.noOpening,
      ht.noOpening, hrows.noOpening]
    · rfl
    · rw [hv, ← List.cons_append, List.getLast?_concat]
      decide
    · rw [hv]
      simp
  found := by
    rw [rowsWritten_cons, rowsWritten_cons, (apart_tag t').found_append markers_isLocal,
      (apart_tag t).found_append markers_isLocal, hx.found, ht.found, hrows.found]
  text := by rw [textMarkers, textMarkers, hx.contentMarkers_eq, ht.raw, hrows.text]
  words := hx.words
  starts hcontainer _ := by
    by_cases hnil : x = []
    · have hnil' : x' = [] := by simpa [hnil] using hempty
      rw [hnil, hnil']
    · exact hx.starts hcontainer hnil
  ends _ := hend
  glue := by
    rw [gluedRows, gluedRows, ht.glue, hrows.glue]
    rcases hrows.empty with hu | rfl
    · rw [hu]
    · simp [gluedRows]
  empty := Or.inl hempty

/-- The rows `rows'` after the content `x'` are what is read of the rows `rows` after `x`, laid out
where the given frames are open; at their end the other frames are. -/
inductive LaidRows (j : Job) :
    List Frame → Option Text → Text → List (Tag × Text) → Text → List (Tag × Text) →
      List Frame → Prop
  | nil {frames frames' : List Frame} {container : Option Text} {x x' : Text}
      (hx : RelaidContent container x x')
      (hbrackets : runBrackets (contentBrackets j.options.probe j.table container x) frames =
        some frames')
      (hgood : container = none → badAttributes.occursIn x = false ∧
        badAttributes.occursIn x' = badAttributes.occursIn (squeeze (x ++ ['\n']))) :
      LaidRows j frames container x [] x' [] frames'
  | cons {frames frames₁ frames₂ frames' : List Frame} {container : Option Text} {x x' u u' : Text}
      {t t' : Tag}
      {rows rows' : List (Tag × Text)} (hx : RelaidContent container x x')
        (hempty : x'.isEmpty = x.isEmpty)
      (hend : endsBlank x' = endsBlank x)
      (hbrackets : runBrackets (contentBrackets j.options.probe j.table container x) frames =
        some frames₁)
      (hread : ∀ r, (tagsIn container).run (t.written ++ r) = some (t, r))
        (ht : RelaidTagAt j frames₁.length t t')
      (htag : runBrackets t.brackets frames₁ = some frames₂)
      (hrows : LaidRows j frames₂ t.rawContainer? u rows u' rows' frames') :
      LaidRows j frames container x ((t, u) :: rows) x' ((t', u') :: rows') frames'

namespace LaidRows

variable {j : Job} {frames frames' : List Frame} {container : Option Text} {x x' : Text}
  {rows rows' : List (Tag × Text)}

theorem relaidRows (h : LaidRows j frames container x rows x' rows' frames') :
    RelaidRows container x rows x' rows' := by
  induction h with
  | nil hx _ _ => exact .nil hx
  | cons hx hempty hend _ hread ht _ _ ih => exact .cons hread hx hempty hend ht.toRelaidTag ih

/-- Rows that are laid out are plain again. -/
theorem plainRows (h : LaidRows j frames container x rows x' rows' frames') {table : MarkerTable}
    (hplain : PlainRows table container x rows) : PlainRows table container x' rows' := by
  have hcontent : ∀ {container : Option Text} {x x' : Text}, RelaidContent container x x' →
      IsPlainContent table container x → IsPlainContent table container x' := by
    intro container x x' hx hplain
    refine ⟨hx.noOpening, fun hnone => ?_⟩
    rw [HasCode, hx.found]
    exact hplain.code hnone
  induction h with
  | nil hx _ _ => exact hcontent hx hplain
  | cons hx _ _ _ _ ht _ _ ih =>
    refine ⟨hcontent hx hplain.1, ht.plain, ?_⟩
    rw [ht.raw]
    exact ih hplain.2.2

end LaidRows

end Rows

end ErbLayout
