import ErbLayout.Proofs.SteadyRows

/-!
Blanks at the start of a body. They put what follows them on a new line, below a line or two that
are trimmed off at the end; nothing else of the layout depends on them.
-/

namespace ErbLayout

open Text Markup Code Layout

section Lines

theorem trailingBlanks_lead (lead : Text) {s : Text} (hs : s ≠ [])
    (hstart : startsBlank s = false) :
    trailingBlanks (lead ++ s) = trailingBlanks s := by
  obtain ⟨trail, htrail, hblank⟩ := exists_trimEnd_append s
  have hvisible : trimEnd s ≠ [] := by
    intro hnil
    obtain ⟨c, u, rfl⟩ := List.exists_cons_of_ne_nil hs
    have hall := List.all_eq_true.mp (trimEnd_eq_nil_iff.mp hnil)
    rw [startsBlank_cons, hall c List.mem_cons_self] at hstart
    simp at hstart
  have hend : endsBlank (lead ++ trimEnd s) = false := by
    rw [endsBlank_append lead hvisible]
    exact endsBlank_trimEnd s
  have hlead := trailingBlanks_append hend hblank
  have hself := trailingBlanks_append (endsBlank_trimEnd s) hblank
  rw [List.append_assoc, ← htrail] at hlead
  rw [← htrail] at hself
  rw [hlead, hself]

theorem startsBlank_lead {lead : Text} (hlead : ∀ c ∈ lead, isBlank c) (hne : lead ≠ [])
    (s : Text) :
    startsBlank (lead ++ s) = true := by
  rw [startsBlank_append hne]
  obtain ⟨c, u, rfl⟩ := List.exists_cons_of_ne_nil hne
  exact hlead c List.mem_cons_self

theorem laidLines_true {lines : List Text} (hne : lines ≠ [])
    (hvisible : ∀ line ∈ lines, IsVisible line) :
    laidLines 0 true lines = '\n' :: laidLines 0 false lines := by
  obtain ⟨line, lines, rfl⟩ := List.exists_cons_of_ne_nil hne
  simp [laidLines, onNewLine, indentation, (hvisible line List.mem_cons_self).trim_eq]

end Lines

/-- Nothing is put out and no block is open. -/
structure Page.IsFresh (p : Page) : Prop where
  blocks : p.blocks = []
  output : p.output = []

theorem Page.IsFresh.depth_eq {p : Page} (h : p.IsFresh) : p.depth = 0 := by
  rw [Page.depth, h.blocks]
  rfl

theorem Page.isFresh_blank : Page.blank.IsFresh := ⟨rfl, rfl⟩

/-- What is put out first on a new line goes below the margin and a line of its own. -/
theorem Page.Matches.emit_first {margin : Text} {p q : Page} (h : p.Matches margin q)
    (hq : q.IsFresh) {s : Text} (hs : IsEnclosed s) :
    (p.emit s true).Matches (margin ++ ['\n']) (q.emit s false) := by
  have hp : p.depth = 0 := h.depth_eq.trans hq.depth_eq
  refine ⟨h.blocks, ?_, ?_⟩
  · rw [Page.output_emit, Page.output_emit, h.output, hq.output, hp]
    simp [onNewLine, indentation, hs.trim_eq]
  · intro c hc
    rcases List.mem_append.mp hc with hc | hc
    · exact h.margin c hc
    · simpa using hc

/-- Nothing can be closed before anything is open. -/
theorem Page.Matches.pop_first {margin : Text} {p q : Page} (h : p.Matches margin q)
    (hq : q.IsFresh) (closer : Closer) (found margin' : Text)
    (next next' : Page → Except Stop Page) :
    Agree margin' (p.pop closer found >>= next) (q.pop closer found >>= next') := by
  rw [Page.pop, Page.pop, h.blocks, hq.blocks]
  exact .error _ _

namespace Job

variable {j : Job} {margin : Text} {p q : Page}

theorem isFresh_layOpener (hq : q.IsFresh) (code : Text) : (j.layOpener code q).2.IsFresh := by
  unfold layOpener
  split
  · exact hq
  · exact ⟨hq.blocks, hq.output⟩

/-- A code tag that comes first is laid out alike on a new line and on the first one. -/
theorem agree_layCodeTag_first (hj : j.IsPlain) (h : p.Matches margin q) (hq : q.IsFresh)
    {code : Text} {tag : CodeTag} (htag : CodeTag.ofText? code = some tag) (hread : tag.IsRead) :
    Agree (margin ++ ['\n']) (j.layCodeTag code true p) (j.layCodeTag code false q) := by
  have henclosed := isEnclosed_render hread tag.code
  have hnoted : (j.noteFormatted tag.code p).Matches margin (j.noteFormatted tag.code q) :=
    (h.note _ _).note _ _
  have hfresh : (j.noteFormatted tag.code q).IsFresh := ⟨hq.blocks, hq.output⟩
  have hopener : (j.layOpener tag.code p).2.Matches margin (j.layOpener tag.code q).2 := by
    unfold layOpener
    split
    · exact h
    · exact (h.note _ _).note _ _
  unfold layCodeTag
  rw [htag]
  dsimp only
  cases Kind.of j.options.probe tag.code with
  | comment => exact .ok (h.emit_first hq henclosed)
  | closer => exact h.pop_first hq .code _ _ _ _
  | reopener => exact h.pop_first hq .code _ _ _ _
  | standalone =>
    dsimp only
    rw [layCode_eq hj.formatCode, layCode_eq hj.formatCode]
    exact .ok (hnoted.emit_first hfresh henclosed)
  | expression =>
    dsimp only
    rw [layCode_eq hj.formatCode, layCode_eq hj.formatCode]
    exact .ok (hnoted.emit_first hfresh henclosed)
  | opener =>
    dsimp only
    rw [layOpener_eq hj.formatCode, layOpener_eq hj.formatCode]
    exact .ok ((hopener.emit_first (isFresh_layOpener hq tag.code) henclosed).push _)

theorem agree_layTag_first (h : p.Matches margin q) (hq : q.IsFresh) (t : Tag) :
    Agree (margin ++ ['\n']) (j.layTag t true p) (j.layTag t false q) := by
  cases t with
  | closing lead name trail => exact h.pop_first hq (.tag name) _ _ _ _
  | opening name attributes gap ending =>
    unfold layTag layOpening
    dsimp only
    rw [h.depth_eq]
    split
    · exact .error _ _
    · have hemit := h.emit_first hq (isEnclosed_opening name
        (formatAttributes ⟨j.options.lineWidth, j.options.singleClassPerLine, j.options.ranking⟩
          j.width name (trim attributes) ending.written q.depth) ending)
      split
      · exact .ok hemit
      · exact .ok (hemit.push _)

/-- Blanks alone put out at most a line feed. -/
theorem layText_lead {lead : Text} (hlead : ∀ c ∈ lead, isBlank c) (tail : Nat) (hq : q.IsFresh) :
    (j.layText lead tail q).Matches (paragraphBreak lead) q := by
  have hwords : words lead = [] := by simpa [words_nil] using words_append_blank [] hlead
  refine ⟨j.blocks_layText lead tail q, ?_, ?_⟩
  · rw [j.output_layText, hq.output, linesOf, hwords]
    simp [pack, packFrom, laidLines]
  · unfold paragraphBreak
    split
    · simp
    · simp

/-- Blanks before a running text that comes first put it below an empty line. -/
theorem layText_lead_append {lead s : Text} (hlead : ∀ c ∈ lead, isBlank c) (hne : lead ≠ [])
    (hs : s ≠ []) (hstart : startsBlank s = false) (tail : Nat) (hq : q.IsFresh) :
    (j.layText (lead ++ s) tail q).Matches ['\n'] (j.layText s tail q) := by
  have hlines : j.linesOf (lead ++ s) tail q = j.linesOf s tail q := by
    have hroom : j.room q = j.options.lineWidth - j.width (lastLine q.output) := by
      have hwidth : j.width (lastLine []) = 0 := by
        change Text.width (j.table.restore []) = 0
        rw [restore_nil]
        rfl
      rw [hq.output, hwidth, room, hq.depth_eq, available]
      simp
    rw [linesOf, linesOf, startsBlank_lead hlead hne, hstart, words_blank_append hlead, if_pos rfl,
      if_neg Bool.false_ne_true, ← hroom]
  obtain ⟨hwords, hvisible⟩ : (j.linesOf s tail q).flatMap words = words s ∧
      ∀ line ∈ j.linesOf s tail q, IsVisible line :=
    packed_words j.width _ (j.room q) tail s
  have hsome : j.linesOf s tail q ≠ [] := by
    intro hnil
    rw [hnil] at hwords
    obtain ⟨c, u, rfl⟩ := List.exists_cons_of_ne_nil hs
    rw [startsBlank_cons, isBlank_of_words_eq_nil hwords.symm c List.mem_cons_self] at hstart
    simp at hstart
  have hblank : startsBlank (lead ++ s) = true := startsBlank_lead hlead hne s
  have hbreak : paragraphBreak (lead ++ s) = paragraphBreak s := by
    rw [paragraphBreak, endsParagraph, trailingBlanks_lead lead hs hstart]
    rfl
  refine ⟨by rw [j.blocks_layText, j.blocks_layText], ?_, by simp⟩
  rw [j.output_layText, j.output_layText, hq.output, hq.depth_eq, hlines, hbreak, hblank, hstart,
    laidLines_true hsome hvisible]
  rfl

end Job

section Lead

theorem occursIn_badAttributes_suffix (lead : Text) {s : Text}
    (h : badAttributes.occursIn (lead ++ s) = false) :
    badAttributes.occursIn s = false := by
  by_contra hbad
  obtain ⟨u, c, b, v, rfl, hrest⟩ :=
    occursIn_badAttributes_iff.mp (by simpa using hbad : badAttributes.occursIn s)
  rw [occursIn_badAttributes_iff.mpr ⟨lead ++ u, c, b, v, by simp, hrest⟩] at h
  simp at h

/-- Plain blanks before a text make no bad attribute. -/
theorem occursIn_badAttributes_lead {lead : Text} (hlead : ∀ c ∈ lead, c ∈ plainBlanks) (s : Text) :
    badAttributes.occursIn (lead ++ s) = badAttributes.occursIn s := by
  rw [Bool.eq_iff_iff, occursIn_badAttributes_iff, occursIn_badAttributes_iff]
  constructor
  · rintro ⟨u, c, b, v, heq, hc, hrest⟩
    rcases List.append_eq_append_iff.mp heq with ⟨k, rfl, hs⟩ | ⟨k, hk, hs⟩
    · exact ⟨k, c, b, v, hs, hc, hrest⟩
    · cases k with
      | nil => exact ⟨[], c, b, v, by simpa using hs.symm, hc, hrest⟩
      | cons d k =>
        obtain ⟨rfl, -⟩ : c = d ∧ _ := by simpa using hs
        have hplain : c ∈ plainBlanks := hlead c (hk ▸ List.mem_append_right u List.mem_cons_self)
        rw [isAttributeNameChar_of_mem_plainBlanks hplain] at hc
        simp at hc
  · rintro ⟨u, c, b, v, rfl, hrest⟩
    exact ⟨lead ++ u, c, b, v, by simp, hrest⟩

variable {lead : Text} (hlead : ∀ c ∈ lead, isBlank c)
include hlead

theorem occursIn_badAttributes_blank : badAttributes.occursIn lead = false := by
  by_contra hbad
  obtain ⟨u, c, b, v, rfl, -⟩ :=
    occursIn_badAttributes_iff.mp (by simpa using hbad : badAttributes.occursIn lead)
  exact absurd (hlead '=' (by simp)) (by decide)

theorem found_lead (s : Text) : markers.found (lead ++ s) = markers.found s :=
  found_eq_of_content (isContent_markers.blank_append hlead s)

/-- Blanks before a text and a line feed make no bad attribute once they are squeezed. -/
theorem occursIn_badAttributes_squeeze_lead {s : Text} (hs : startsBlank s = false) :
    badAttributes.occursIn (squeeze (s ++ ['\n'])) =
      badAttributes.occursIn (squeeze (lead ++ (s ++ ['\n']))) := by
  by_cases hne : lead = []
  · rw [hne, List.nil_append]
  by_cases hnil : s = []
  · have hall : ∀ c ∈ lead ++ ['\n'], isBlank c := by
      intro c hc
      rcases List.mem_append.mp hc with hc | hc
      · exact hlead c hc
      · rw [List.mem_singleton.mp hc]
        decide
    rw [hnil, List.nil_append, squeeze_blanks (List.append_ne_nil_of_left_ne_nil hne _) hall]
    decide
  · have hstart : startsBlank (s ++ ['\n']) = false := by rw [startsBlank_append hnil, hs]
    rw [squeeze_append (Or.inr hstart), squeeze_blanks hne hlead,
      occursIn_badAttributes_lead (by simp; decide)]

theorem split_lead_of_nil {s : Text} (h : (markers.split s).1 = []) :
    markers.split (lead ++ s) = ([], lead ++ s) := by
  apply Recogniser.split_of_first?_eq_none
  rw [← found_eq_nil_iff, found_lead hlead, Recogniser.found, h]
  rfl

theorem split_lead_of_cons {s b digits : Text} {found : List (Text × Text)}
    (h : (markers.split s).1 = (b, digits) :: found) :
    markers.split (lead ++ s) = ((lead ++ b, digits) :: found, (markers.split s).2) := by
  obtain ⟨hbefore, htail⟩ := (markers_isLocal.covers).first?_split s
  have hdigits := isDigits_of_mem_split s
  have hjoin : lead ++ s = joinMarkers ((lead ++ b, digits) :: found) (markers.split s).2 := by
    have hself := joinMarkers_split s
    rw [h, joinMarkers_cons] at hself
    rw [joinMarkers_cons, List.append_assoc, hself]
  rw [h] at hbefore hdigits
  rw [hjoin]
  refine split_joinMarkers (fun x hx => ?_) htail
  rcases List.mem_cons.mp hx with rfl | hx
  · refine ⟨?_, hdigits (b, digits) List.mem_cons_self⟩
    rw [← found_eq_nil_iff, found_lead hlead, found_eq_nil_iff]
    exact hbefore (b, digits) List.mem_cons_self
  · exact ⟨hbefore x (List.mem_cons_of_mem _ hx), hdigits x (List.mem_cons_of_mem _ hx)⟩

end Lead

namespace Job

variable {j : Job} {q : Page}

/-- Blanks before a text that comes first put it below empty lines. -/
theorem exists_agree_layTextToken_lead (hj : j.IsPlain) (hcodes : j.ReadsCode) {lead s : Text}
    (hblank : ∀ c ∈ lead, isBlank c) (hne : lead ≠ []) (hs : HasCode j.table s) (hsome : s ≠ [])
    (hstart : startsBlank s = false) (hbad : badAttributes.occursIn (lead ++ s) =
      badAttributes.occursIn s) (tail : Nat) (hq : q.IsFresh) :
    ∃ margin, Agree margin (j.layTextToken 0 (lead ++ s) tail q) (j.layTextToken 0 s tail q) := by
  have hs' : HasCode j.table (lead ++ s) := by
    rw [HasCode, found_lead hblank]
    exact hs
  rw [layTextToken_of_code hs, layTextToken_of_code hs', hbad]
  split
  · exact ⟨[], .error _ _⟩
  · cases hfound : (markers.split s).1 with
    | nil =>
      have hself : (markers.split s).2 = s := by
        have hjoin := joinMarkers_split s
        rw [hfound] at hjoin
        exact hjoin
      rw [split_lead_of_nil hblank hfound, hself]
      exact ⟨['\n'], .ok (layText_lead_append hblank hne hsome hstart tail hq)⟩
    | cons x found =>
      obtain ⟨b, digits⟩ := x
      rw [split_lead_of_cons hblank hfound]
      obtain ⟨code, hcode⟩ := Option.isSome_iff_exists.mp
        (hs digits (by simp [Recogniser.found, hfound]))
      obtain ⟨tag, htag, hread⟩ := hcodes digits code hcode
      -- what comes first is the running text before the first code tag, or that code tag
      obtain ⟨margin, hfirst⟩ : ∃ margin,
          Agree margin
            (j.layCodeTag code (endsBlank (lead ++ b))
              { j.layText (lead ++ b) 0 q with position := 0 + byteSize (lead ++ b) })
            (j.layCodeTag code (endsBlank b)
                { j.layText b 0 q with position := 0 + byteSize b }) := by
        by_cases hb : b = []
        · subst hb
          have hend : endsBlank lead = true := endsBlank_of_isBlank hne hblank
          have hpages := (layText_lead hblank 0 hq (j := j)).move (0 + byteSize lead)
            (0 + byteSize [])
          rw [List.append_nil, hend]
          exact ⟨_, agree_layCodeTag_first hj hpages ⟨hq.blocks, hq.output⟩ htag hread⟩
        · have hbStart : startsBlank b = false := by
            have hjoin := joinMarkers_split s
            rw [hfound, joinMarkers_cons] at hjoin
            rw [← hjoin, startsBlank_append hb] at hstart
            exact hstart
          have hpages := (layText_lead_append hblank hne hb hbStart 0 hq (j := j)).move
            (0 + byteSize (lead ++ b)) (0 + byteSize b)
          rw [endsBlank_append lead hb]
          exact ⟨_, hpages.layCodeTag j code (endsBlank b)⟩
      refine ⟨margin, ?_⟩
      simp only [List.map_cons, pieceOf, hcode, Option.getD_some, layPieces]
      have hpieces : ∀ offset offset' {p q : Page}, p.Matches margin q →
          Agree margin (j.layPieces offset (found.map (pieceOf j.table)) p)
            (j.layPieces offset' (found.map (pieceOf j.table)) q) :=
        fun offset offset' _ _ hpages =>
          agree_layPieces (List.forall₂_same.mpr fun x _ => ⟨.refl x.1, rfl⟩) offset offset' hpages
      exact (hfirst.bind fun _ _ hpages => hpieces _ _ hpages).bind fun _ _ hpages =>
        .ok (hpages.layText j (.refl _) tail)

theorem layTextToken_lead {lead : Text} (hlead : ∀ c ∈ lead, isBlank c) (tail : Nat) (q : Page) :
    j.layTextToken 0 lead tail q = .ok (j.layText lead tail q) := by
  have hsplit := split_lead_of_nil hlead (s := []) (by rw [Recogniser.split_of_first?_eq_none rfl])
  rw [List.append_nil] at hsplit
  have hcode : HasCode j.table lead := by
    intro d hd
    simp [Recogniser.found, hsplit] at hd
  rw [layTextToken_of_code hcode, occursIn_badAttributes_blank hlead, hsplit]
  rfl

/-- Blanks before rows that come first put them below empty lines. -/
theorem exists_agree_layRows_lead (hj : j.IsPlain) (hcodes : j.ReadsCode) {lead x : Text}
    (hblank : ∀ c ∈ lead, isBlank c) (hx : HasCode j.table x) (hstart : startsBlank x = false)
    (hbad : badAttributes.occursIn (lead ++ x) = badAttributes.occursIn x)
    (rows : List (Tag × Text)) (hq : q.IsFresh) :
    ∃ margin, Agree margin (j.layRows none (lead ++ x) rows q) (j.layRows none x rows q) := by
  by_cases hne : lead = []
  · subst hne
    exact ⟨[], agree_layRows none x rows (.refl q)⟩
  by_cases hempty : x = []
  · subst hempty
    rw [List.append_nil]
    cases rows with
    | nil =>
      rw [layRows, layRows, layContent, layContent, layTextToken_lead hblank, layTextToken_nil]
      exact ⟨_, .ok (layText_lead hblank 0 hq)⟩
    | cons row rows =>
      obtain ⟨t, u⟩ := row
      have hend : endsBlank lead = true := endsBlank_of_isBlank hne hblank
      rw [layRows, layRows, layContent, layContent, layTextToken_lead hblank,
        layTextToken_nil, hend]
      refine ⟨paragraphBreak lead ++ ['\n'], ?_⟩
      exact (agree_layTag_first (layText_lead hblank _ hq) hq t).bind fun _ _ hpages =>
        agree_layRows t.rawContainer? u rows hpages
  · cases rows with
    | nil => exact exists_agree_layTextToken_lead hj hcodes hblank hne hx hempty hstart hbad 0 hq
    | cons row rows =>
      obtain ⟨t, u⟩ := row
      obtain ⟨margin, hcontent⟩ := exists_agree_layTextToken_lead hj hcodes hblank hne hx hempty
        hstart hbad (if endsBlank x then 0 else gluedRows ((t, u) :: rows)) hq
      refine ⟨margin, ?_⟩
      rw [layRows, layRows, endsBlank_append lead hempty]
      refine hcontent.bind fun _ _ hpages => ?_
      exact (agree_layTag t (endsBlank x) hpages).bind fun _ _ hpages =>
        agree_layRows t.rawContainer? u rows hpages

/-- Blanks before rows make no difference to whether the rows are steady. -/
theorem isSteadyFrom_trimStart_iff {frames : List Frame} {x : Text} {rows : List (Tag × Text)} :
    j.IsSteadyFrom frames (leadingLexeme none (trimStart x) ++ rowsLexemes rows) ↔
      j.IsSteadyFrom frames (leadingLexeme none x ++ rowsLexemes rows) := by
  obtain ⟨lead, hx, hblank⟩ := exists_append_trimStart x
  cases rows with
  | nil =>
    have hsqueeze : badAttributes.occursIn (squeeze (trimStart x ++ ['\n'])) =
        badAttributes.occursIn (squeeze (x ++ ['\n'])) := by
      conv_rhs => rw [hx, List.append_assoc]
      exact occursIn_badAttributes_squeeze_lead hblank (startsBlank_trimStart x)
    rw [isSteadyFrom_rows_nil, isSteadyFrom_rows_nil, hsqueeze]
  | cons row rows =>
    obtain ⟨t, u⟩ := row
    have hbrackets : contentBrackets j.options.probe j.table none (trimStart x) =
        contentBrackets j.options.probe j.table none x := by
      have hfound := found_lead hblank (trimStart x)
      rw [← hx] at hfound
      rw [contentBrackets, contentBrackets, contentMarkers, contentMarkers, hfound]
    rw [isSteadyFrom_iff, isSteadyFrom_iff, placedTags_content, placedTags_content, hbrackets,
      lastText?_rows_cons, lastText?_rows_cons]

end Job

end ErbLayout
