import ErbLayout.Proofs.CanonicalLayout
import ErbLayout.Proofs.RowLayout

/-!
Texts that are laid out and laid out again. The words of a running text are put on lines, and the
blanks at its end come out as the gap before what follows it; the text that results differs from the
first in its blanks only. The code tags of a text are put out between the running texts around them,
so a text with markers for them has the form of the output.
-/

namespace ErbLayout

open Text Markup Code Layout MarkerTable

section BadAttributes

theorem exists_of_badAttribute? {s : Text} {x : Text × Text} (h : badAttribute? s = some x) :
    ∃ u c b v, s = u ++ c :: '=' :: b :: v ∧ isAttributeNameChar c ∧ c ≠ '/' ∧ isBlank b := by
  have hname := spanOf_append isAttributeNameChar s
  have hchars : ∀ c ∈ (spanOf isAttributeNameChar s).1, isAttributeNameChar c := fun c => mem_spanOf
  unfold badAttribute? at h
  generalize spanOf isAttributeNameChar s = parts at hname hchars h
  obtain ⟨name, rest⟩ := parts
  dsimp only at hname hchars h
  split at h
  · simp at h
  next hsign =>
    split at h
    next t =>
      split at h
      · simp at h
      next hblanks =>
        have hblank := spanOf_append isBlank t
        obtain ⟨b, bs, hb⟩ := List.exists_cons_of_ne_nil
          (fun hnil => hblanks (List.isEmpty_iff.mpr hnil) : (spanOf isBlank t).1 ≠ [])
        rcases List.eq_nil_or_concat name with rfl | ⟨n, c, rfl⟩
        · simp at hsign
        · rw [List.concat_eq_append] at hsign hname hchars
          refine ⟨n, c, b, bs ++ (spanOf isBlank t).2, ?_, hchars c (by simp),
            by simpa using hsign, ?_⟩
          · rw [hb] at hblank
            rw [← hname, List.append_assoc]
            exact congrArg (fun t => n ++ c :: '=' :: t) hblank.symm
          · exact mem_spanOf (hb ▸ List.mem_cons_self)
    next => simp at h

/-- A bad attribute is an equals sign after a character of a name, with a blank after it. -/
theorem occursIn_badAttributes_iff {s : Text} :
    badAttributes.occursIn s ↔
      ∃ u c b v, s = u ++ c :: '=' :: b :: v ∧ isAttributeNameChar c ∧ c ≠ '/' ∧ isBlank b := by
  constructor
  · intro h
    obtain ⟨⟨before, a, r⟩, hfirst⟩ := Option.isSome_iff_exists.mp h
    obtain ⟨hs, hrun, -⟩ := Recogniser.first?_eq_some_iff.mp hfirst
    obtain ⟨u, c, b, v, hread, hc⟩ := exists_of_badAttribute? hrun
    exact ⟨before ++ u, c, b, v, by rw [hs, hread, List.append_assoc], hc⟩
  · rintro ⟨u, c, b, v, rfl, hc, hslash, hb⟩
    have hspan : spanOf isAttributeNameChar (c :: '=' :: b :: v) = ([c], '=' :: b :: v) :=
      spanOf_append_eq (a := [c]) (by simpa using hc) (by
        intro d hd
        obtain rfl : '=' = d := by simpa using hd
        decide)
    have hblanks : (spanOf isBlank (b :: v)).1 ≠ [] := by simp [spanOf, hb]
    have hrun : badAttributes.run (c :: '=' :: b :: v) ≠ none := by
      change badAttribute? (c :: '=' :: b :: v) ≠ none
      simp [badAttribute?, hspan, hslash, hblanks]
    by_contra hnot
    have hnone : badAttributes.first? (u ++ c :: '=' :: b :: v) = none := by
      simpa [Recogniser.occursIn] using hnot
    exact hrun (Recogniser.first?_eq_none_iff.mp hnone _ (List.suffix_append u _))

theorem exists_of_squeeze_eq_cons {c : Char} (hc : isBlank c = false) {s u : Text}
    (h : squeeze s = c :: u) :
    ∃ t, s = c :: t ∧ squeeze t = u := by
  cases s with
  | nil => simp [squeeze] at h
  | cons d s =>
    have hd : isBlank d = false := by
      have hstart := startsBlank_squeeze (d :: s)
      rw [h, startsBlank_cons, startsBlank_cons, hc] at hstart
      exact hstart.symm
    rw [squeeze_cons_of_notBlank hd] at h
    obtain ⟨rfl, rfl⟩ := List.cons.inj h
    exact ⟨s, rfl, rfl⟩

/-- Bad attributes are no more than before when blanks are squeezed. -/
theorem occursIn_badAttributes_of_squeeze {s : Text} (h : badAttributes.occursIn (squeeze s)) :
    badAttributes.occursIn s := by
  rw [occursIn_badAttributes_iff] at h ⊢
  induction s with
  | nil =>
    obtain ⟨u, c, b, v, hs, -⟩ := h
    simp [squeeze] at hs
  | cons d s ih =>
    have hlater : (∃ u c b v, s = u ++ c :: '=' :: b :: v ∧ isAttributeNameChar c ∧ c ≠ '/' ∧
      isBlank b) →
        ∃ u c b v, d :: s = u ++ c :: '=' :: b :: v ∧ isAttributeNameChar c ∧ c ≠ '/' ∧
        isBlank b := by
      rintro ⟨u, c, b, v, rfl, hc⟩
      exact ⟨d :: u, c, b, v, rfl, hc⟩
    obtain ⟨u, c, b, v, hs, hc, hslash, hb⟩ := h
    by_cases hd : isBlank d
    · -- a space begins no attribute name
      rw [squeeze_cons_of_isBlank hd] at hs
      split at hs
      · exact hlater (ih ⟨u, c, b, v, hs, hc, hslash, hb⟩)
      · cases u with
        | nil =>
          obtain ⟨rfl, -⟩ := List.cons.inj hs
          exact absurd hc (by decide)
        | cons e u => exact hlater (ih ⟨u, c, b, v, (List.cons.inj hs).2, hc, hslash, hb⟩)
    · rw [squeeze_cons_of_notBlank (by simpa using hd)] at hs
      cases u with
      | cons e u => exact hlater (ih ⟨u, c, b, v, (List.cons.inj hs).2, hc, hslash, hb⟩)
      | nil =>
        obtain ⟨rfl, hrest⟩ := List.cons.inj hs
        obtain ⟨t, rfl, ht⟩ := exists_of_squeeze_eq_cons (by decide) hrest
        obtain ⟨e, t, rfl⟩ : ∃ e t', t = e :: t' := by
          cases t with
          | nil => simp [squeeze] at ht
          | cons e t => exact ⟨e, t, rfl⟩
        have hstart := startsBlank_squeeze (e :: t)
        rw [ht, startsBlank_cons, startsBlank_cons, hb] at hstart
        exact ⟨[], d, e, t, rfl, hc, hslash, hstart.symm⟩

end BadAttributes

section Gaps

def gapAt (newLine : Bool) (depth : Nat) : Text := if newLine then onNewLine depth [] else []

/-- The gap stands for the blanks that a text ends with: none, or some with one line feed among
them. -/
structure IsGap (s gap : Text) : Prop where
  glued : endsBlank s = false → gap = []
  apart : endsBlank s = true → gap ≠ [] ∧ (∀ c ∈ gap, c ∈ plainBlanks) ∧ gap.count '\n' = 1

theorem isGap_gapAt (s : Text) (depth : Nat) : IsGap s (gapAt (endsBlank s) depth) where
  glued h := by rw [h]; rfl
  apart h := by
    rw [h]
    refine ⟨List.cons_ne_nil _ _, fun c => mem_plainBlanks_onNewLine_nil, ?_⟩
    simp [gapAt, onNewLine, indentation, trim, trimStart, trimEnd, List.count_replicate]

theorem IsGap.isBlank {s gap : Text} (h : IsGap s gap) : ∀ c ∈ gap, isBlank c := by
  intro c hc
  cases hend : endsBlank s with
  | false => simp [h.glued hend] at hc
  | true => exact isBlank_of_mem_plainBlanks ((h.apart hend).2.1 c hc)

theorem output_emit_enclosed (p : Page) {s : Text} (hs : IsEnclosed s) (newLine : Bool) :
    (p.emit s newLine).output = p.output ++ (gapAt newLine p.depth ++ s) := by
  rw [Page.output_emit, gapAt]
  cases newLine with
  | false => rfl
  | true => rw [if_pos rfl, if_pos rfl, onNewLine_eq_append, hs.trim_eq]

end Gaps

section Paragraphs

theorem trailingBlanks_eq_nil {s : Text} (h : endsBlank s = false) : trailingBlanks s = [] := by
  have happend := trailingBlanks_append h (b := []) (by simp)
  rwa [List.append_nil] at happend

theorem endsParagraph_eq_false {s : Text} (h : endsBlank s = false) : endsParagraph s = false := by
  rw [endsParagraph, trailingBlanks_eq_nil h]
  rfl

end Paragraphs

section Words

/-- The text is laid out from the other: it differs in its blanks only, and these are plain. -/
structure Relaid (s t : Text) : Prop extends Respaced s t where
  plain : HasPlainBlanks t

def paragraphBreak (s : Text) : Text := if endsParagraph s then ['\n'] else []

theorem mem_plainBlanks_of_mem_paragraphBreak {s : Text} {c : Char} (h : c ∈ paragraphBreak s) :
    c ∈ plainBlanks := by
  unfold paragraphBreak at h
  split at h
  · obtain rfl : c = '\n' := by simpa using h
    decide
  · simp at h

/-- Blanks after lines of words, if the text ends with a blank. -/
theorem IsGap.mem_break {s gap : Text} (h : IsGap s gap) {c : Char}
    (hc : c ∈ paragraphBreak s ++ gap) :
    c ∈ plainBlanks := by
  rcases List.mem_append.mp hc with hc | hc
  · exact mem_plainBlanks_of_mem_paragraphBreak hc
  · cases hend : endsBlank s with
    | false => simp [h.glued hend] at hc
    | true => exact (h.apart hend).2.1 c hc

/-- Lines of words with the gap after them begin as the text does. -/
theorem startsBlank_laidLines_append {s gap : Text} (hgap : IsGap s gap) (depth : Nat)
    {lines : List Text} (hwords : lines.flatMap words = words s)
    (hvisible : ∀ line ∈ lines, IsVisible line) :
    startsBlank (laidLines depth (startsBlank s) lines ++ (paragraphBreak s ++ gap)) =
      startsBlank s := by
  cases lines with
  | nil =>
    have hblank : ∀ c ∈ s, isBlank c := isBlank_of_words_eq_nil hwords.symm
    rw [laidLines, List.nil_append]
    cases s with
    | nil =>
      rw [hgap.glued rfl]
      rfl
    | cons c s =>
      obtain ⟨hne, -, -⟩ := hgap.apart (endsBlank_of_isBlank (List.cons_ne_nil c s) hblank)
      obtain ⟨d, u, hu⟩ := List.exists_cons_of_ne_nil
        (List.append_ne_nil_of_right_ne_nil (paragraphBreak (c :: s)) hne)
      have hd : isBlank d := isBlank_of_mem_plainBlanks (hgap.mem_break (hu ▸ List.mem_cons_self))
      rw [hu, startsBlank_cons, startsBlank_cons, hd, hblank c List.mem_cons_self]
  | cons line lines =>
    have hne : laidLines depth (startsBlank s) (line :: lines) ≠ [] := by
      have hline := (hvisible line List.mem_cons_self).ne_nil
      rw [laidLines]
      split
      · exact List.cons_ne_nil _ _
      · exact List.append_ne_nil_of_left_ne_nil hline _
    rw [startsBlank_append hne, startsBlank_laidLines depth _ (List.cons_ne_nil _ _) hvisible]

theorem endsBlank_laidLines_append {s gap : Text} (hgap : IsGap s gap) (depth : Nat)
    {lines : List Text} (hvisible : ∀ line ∈ lines, IsVisible line) :
    endsBlank (laidLines depth (startsBlank s) lines ++ (paragraphBreak s ++ gap)) =
      endsBlank s := by
  cases hs : endsBlank s with
  | false =>
    rw [paragraphBreak, endsParagraph_eq_false hs, hgap.glued hs]
    simpa using endsBlank_laidLines depth (startsBlank s) hvisible
  | true =>
    have hne := (hgap.apart hs).1
    rw [← List.append_assoc, endsBlank_append _ hne, endsBlank_of_isBlank hne hgap.isBlank]

theorem endsParagraph_laidLines_append {s gap : Text} (hgap : IsGap s gap) (depth : Nat)
    {lines : List Text} (hvisible : ∀ line ∈ lines, IsVisible line) :
    endsParagraph (laidLines depth (startsBlank s) lines ++ (paragraphBreak s ++ gap)) =
      endsParagraph s := by
  have hblank : ∀ c ∈ paragraphBreak s ++ gap, isBlank c :=
    fun c hc => isBlank_of_mem_plainBlanks (hgap.mem_break hc)
  rw [endsParagraph, trailingBlanks_append (endsBlank_laidLines depth _ hvisible) hblank,
    List.count_append]
  cases hs : endsBlank s with
  | false =>
    rw [paragraphBreak, endsParagraph_eq_false hs, hgap.glued hs]
    rfl
  | true =>
    rw [(hgap.apart hs).2.2, paragraphBreak]
    cases endsParagraph s <;> rfl

/-- The words of a text on lines, with the gap after them, are the text with other blanks. -/
theorem relaid_laidLines {s gap : Text} (hgap : IsGap s gap) (depth : Nat) (measure : Text → Nat)
    (firstWidth width tail : Nat) :
    Relaid s (laidLines depth (startsBlank s) (pack measure firstWidth width tail (words s)) ++
      (paragraphBreak s ++ gap)) := by
  obtain ⟨hwords, hvisible⟩ := packed_words measure firstWidth width tail s
  have hblank : ∀ c ∈ paragraphBreak s ++ gap, isBlank c :=
    fun c hc => isBlank_of_mem_plainBlanks (hgap.mem_break hc)
  refine ⟨⟨squeeze_congr ?_ ?_ ?_, ?_⟩, ?_⟩
  · rw [words_append_blank _ hblank, words_laidLines, hwords]
  · exact (startsBlank_laidLines_append hgap depth hwords hvisible).symm
  · exact (endsBlank_laidLines_append hgap depth hvisible).symm
  · exact (endsParagraph_laidLines_append hgap depth hvisible).symm
  · intro c hc hcBlank
    rcases List.mem_append.mp hc with hc | hc
    · rcases mem_laidLines hc with hc | ⟨line, hline, hc⟩
      · exact hc
      · rcases mem_of_mem_pack (fun w hw => (of_mem_words hw).1) hline hc with rfl | ⟨w, hw, hc⟩
        · decide
        · rw [((of_mem_words hw).2 c hc).2] at hcBlank
          simp at hcBlank
    · exact hgap.mem_break hc

end Words

section Output

theorem Page.depth_emit (p : Page) (s : Text) (newLine : Bool) :
    (p.emit s newLine).depth = p.depth := by
  cases newLine <;> rfl

theorem Page.blocks_emit (p : Page) (s : Text) (newLine : Bool) :
    (p.emit s newLine).blocks = p.blocks := by
  cases newLine <;> rfl

theorem Page.output_foldl_emit (p : Page) (newLine : Bool) (lines : List Text) :
    (lines.foldl (fun acc line => (acc.1.emit line acc.2, true)) (p, newLine)).1.output =
      p.output ++ laidLines p.depth newLine lines := by
  have hlater : ∀ (lines : List Text) (q : Page),
      (lines.foldl (fun acc line => (acc.1.emit line acc.2, true)) (q, true)).1.output =
        q.output ++ lines.flatMap (onNewLine q.depth) := by
    intro lines
    induction lines with
    | nil => simp
    | cons line lines ih =>
      intro q
      rw [List.foldl_cons, ih, Page.output_emit, Page.depth_emit]
      simp
  cases lines with
  | nil => simp [laidLines]
  | cons line lines =>
    rw [List.foldl_cons, hlater, Page.output_emit, Page.depth_emit, laidLines, List.append_assoc]

theorem Page.blocks_foldl_emit (p : Page) (newLine : Bool) (lines : List Text) :
    (lines.foldl (fun acc line => (acc.1.emit line acc.2, true)) (p, newLine)).1.blocks =
      p.blocks := by
  induction lines generalizing p newLine with
  | nil => rfl
  | cons line lines ih => rw [List.foldl_cons, ih, Page.blocks_emit]

def Job.linesOf (j : Job) (s : Text) (tail : Nat) (p : Page) : List Text :=
  pack j.width (if startsBlank s then j.room p
    else j.options.lineWidth - j.width (lastLine p.output)) (j.room p) tail
    (words s)

theorem Job.output_layText (j : Job) (s : Text) (tail : Nat) (p : Page) :
    (j.layText s tail p).output =
      p.output ++ (laidLines p.depth (startsBlank s) (j.linesOf s tail p) ++ paragraphBreak s) := by
  unfold Job.layText
  split
  next hempty =>
    have hnil : s = [] := by simpa using hempty
    subst hnil
    simp [linesOf, words_nil, pack, packFrom, laidLines, paragraphBreak, endsParagraph,
      trailingBlanks]
  next =>
    have hlines := Page.output_foldl_emit (p.note (.text s)) (startsBlank s) (j.linesOf s tail p)
    dsimp only [reflow]
    have hbreak : paragraphBreak s =
      if decide (1 < (trailingBlanks s).count '\n') then ['\n'] else [] := rfl
    rw [hbreak]
    split
    · rw [← List.append_assoc]
      exact congrArg (· ++ ['\n']) hlines
    · rw [List.append_nil]
      exact hlines

theorem Job.blocks_layText (j : Job) (s : Text) (tail : Nat) (p : Page) :
    (j.layText s tail p).blocks = p.blocks := by
  unfold Job.layText
  split
  · rfl
  · dsimp only
    split
    · exact Page.blocks_foldl_emit _ _ _
    · exact Page.blocks_foldl_emit _ _ _

/-- Running text and the gap after it are put out as a text that differs in its blanks only. -/
theorem Job.exists_relaid_layText (j : Job) {s gap : Text} (hgap : IsGap s gap) (tail : Nat)
    (p : Page) :
    ∃ t, Relaid s t ∧ (j.layText s tail p).output ++ gap = p.output ++ t := by
  refine ⟨laidLines p.depth (startsBlank s)
    (j.linesOf s tail p) ++ (paragraphBreak s ++ gap), ?_, ?_⟩
  · exact relaid_laidLines hgap p.depth j.width _ (j.room p) tail
  · rw [j.output_layText]
    simp

end Output

section Code

def renderedCode (written : Text) : Text :=
  match CodeTag.ofText? written with
  | none => written
  | some tag => tag.render tag.code

def shownCode (table : MarkerTable) (digits : Text) : Text :=
  match table.code? digits with
  | none => markers.written digits
  | some code => renderedCode code

def HasCode (table : MarkerTable) (s : Text) : Prop := ∀ d ∈ markers.found s, (table.code? d).isSome

/-- The texts have the same markers, and the running texts around them differ in their blanks
only. -/
structure RelaidText (s t : Text) : Prop where
  found : List.Forall₂ (fun x y => x.2 = y.2 ∧ Relaid x.1 y.1)
    (markers.split s).1 (markers.split t).1
  last : Relaid (markers.split s).2 (markers.split t).2

def pieceOf (table : MarkerTable) (x : Text × Text) : Text × Text × Text :=
  (x.1, markers.written x.2, (table.code? x.2).getD [])

theorem codePieces_of_code {table : MarkerTable} {found : List (Text × Text)}
    (h : ∀ x ∈ found, (table.code? x.2).isSome) (tail : Text) :
    Job.codePieces table [] found tail = (found.map (pieceOf table), tail) := by
  induction found with
  | nil => rfl
  | cons x found ih =>
    obtain ⟨b, digits⟩ := x
    obtain ⟨code, hcode⟩ := Option.isSome_iff_exists.mp (h _ List.mem_cons_self)
    have hrest := ih fun y hy => h y (List.mem_cons_of_mem _ hy)
    dsimp only at hcode
    simp [Job.codePieces, hcode, hrest, pieceOf]

section Markers

def joinMarkers (found : List (Text × Text)) (last : Text) : Text :=
  found.flatMap (fun x => x.1 ++ markers.written x.2) ++ last

theorem joinMarkers_split (s : Text) : joinMarkers (markers.split s).1 (markers.split s).2 = s :=
  markers.flatten_split s

theorem joinMarkers_cons (b digits : Text) (found : List (Text × Text)) (last : Text) :
    joinMarkers ((b, digits) :: found) last =
      b ++ (markers.written digits ++ joinMarkers found last) := by
  simp [joinMarkers]

theorem split_joinMarkers {found : List (Text × Text)} {last : Text}
    (hfound : ∀ x ∈ found, markers.first? x.1 = none ∧ IsDigits x.2)
    (hlast : markers.first? last = none) :
    markers.split (joinMarkers found last) = (found, last) := by
  induction found with
  | nil => exact Recogniser.split_of_first?_eq_none hlast
  | cons x found ih =>
    obtain ⟨b, digits⟩ := x
    obtain ⟨hb, hdigits⟩ := hfound _ List.mem_cons_self
    have hfirst := ((apart_written digits).1 b (joinMarkers found last)).first?_of_eq_none
      markers_isLocal hb
    rw [Recogniser.first?_of_run (run_written hdigits _)] at hfirst
    have hfirst : markers.first? (b ++ (markers.written digits ++ joinMarkers found last)) =
        some (b, digits, joinMarkers found last) := by simpa using hfirst
    rw [joinMarkers_cons, Recogniser.split_of_first?_eq_some hfirst,
      ih fun y hy => hfound y (List.mem_cons_of_mem _ hy)]

theorem isDigits_of_mem_split (s : Text) : ∀ x ∈ (markers.split s).1, IsDigits x.2 := by
  intro x hx
  obtain ⟨v, r, hrun⟩ := Recogniser.exists_run_of_mem_split hx
  exact isDigits_of_run hrun

theorem squeeze_joinMarkers {found : List (Text × Text)} (h : ∀ x ∈ found, IsDigits x.2)
    (last : Text) :
    squeeze (joinMarkers found last) =
      found.flatMap (fun x => squeeze x.1 ++ markers.written x.2) ++ squeeze last := by
  induction found with
  | nil => rfl
  | cons x found ih =>
    obtain ⟨b, d⟩ := x
    have hstart : startsBlank (markers.written d ++ joinMarkers found last) = false := rfl
    rw [joinMarkers_cons, squeeze_append (Or.inr hstart),
      squeeze_append_of_notBlank fun c => isBlank_eq_false_of_mem_written (h _ List.mem_cons_self),
      ih fun y hy => h y (List.mem_cons_of_mem _ hy)]
    simp

/-- A marker does not end with a blank, so a text ends as its last running text does. -/
theorem endsBlank_split (s : Text) : endsBlank (markers.split s).2 = endsBlank s := by
  have hjoin := joinMarkers_split s
  generalize markers.split s = parts at hjoin ⊢
  obtain ⟨found, last⟩ := parts
  subst hjoin
  by_cases hlast : last = []
  · subst hlast
    rcases List.eq_nil_or_concat found with rfl | ⟨found, x, rfl⟩
    · rfl
    · have hmark : joinMarkers (found.concat x) [] =
          (found.flatMap (fun x => x.1 ++ markers.written x.2) ++ x.1) ++ markers.written x.2 := by
        simp [joinMarkers]
      rw [hmark, Job.endsBlank_append_marker]
      rfl
  · exact (endsBlank_append _ hlast).symm

/-- The markers of a text one after the other are a content of it. -/
theorem isContent_markers : IsContent fun s => (markers.found s).flatMap markers.written where
  nil := by simp [Recogniser.found_of_first?_eq_none (p := markers) (s := []) rfl]
  cut s c t hc := by
    have hfound := (apart_singleton hc).found_append markers_isLocal s t
    rw [Recogniser.found_of_first?_eq_none (first?_singleton c), List.singleton_append] at hfound
    simp [hfound, Recogniser.found_of_first?_eq_none (first?_singleton c)]
  blank c _ := by simp [Recogniser.found_of_first?_eq_none (first?_singleton c)]

theorem found_flatMap_written {l : List Text} (h : ∀ d ∈ l, IsDigits d) :
    markers.found (l.flatMap markers.written) = l := by
  induction l with
  | nil => exact Recogniser.found_of_first?_eq_none rfl
  | cons d l ih =>
    rw [List.flatMap_cons, Recogniser.found_of_run (run_written (h d List.mem_cons_self) _),
      ih fun e he => h e (List.mem_cons_of_mem d he)]

theorem isDigits_of_mem_found {s d : Text} (h : d ∈ markers.found s) : IsDigits d := by
  obtain ⟨x, hx, rfl⟩ := List.mem_map.mp h
  exact isDigits_of_mem_split s x hx

/-- Texts whose markers are the same one after the other have the same markers. -/
theorem found_eq_of_content {s t : Text}
    (h : (markers.found s).flatMap markers.written = (markers.found t).flatMap markers.written) :
    markers.found s = markers.found t := by
  rw [← found_flatMap_written (fun d => isDigits_of_mem_found (s := s)), h,
    found_flatMap_written fun d => isDigits_of_mem_found]

theorem found_eq_nil_iff {s : Text} : markers.found s = [] ↔ markers.first? s = none := by
  constructor
  · intro h
    cases hfirst : markers.first? s with
    | none => rfl
    | some x => simp [Recogniser.found, Recogniser.split_of_first?_eq_some hfirst] at h
  · exact Recogniser.found_of_first?_eq_none

theorem Respaced.found_eq {s t : Text} (h : Respaced s t) : markers.found s = markers.found t := by
  apply found_eq_of_content
  have hs := isContent_markers.words_eq s
  rw [h.words_eq, isContent_markers.words_eq t] at hs
  exact hs.symm

end Markers

namespace RelaidText

variable {s t : Text}

theorem digits_eq {found found' : List (Text × Text)}
    (h : List.Forall₂ (fun x y => x.2 = y.2 ∧ Relaid x.1 y.1) found found') :
    found.map Prod.snd = found'.map Prod.snd := by
  induction h with
  | nil => rfl
  | cons hxy _ ih => rw [List.map_cons, List.map_cons, hxy.1, ih]

theorem found_eq (h : RelaidText s t) : markers.found s = markers.found t := digits_eq h.found

theorem hasCode {table : MarkerTable} (h : RelaidText s t) (hs : HasCode table s) :
    HasCode table t := by
  rw [HasCode, ← h.found_eq]
  exact hs

theorem squeeze_eq (h : RelaidText s t) : squeeze s = squeeze t := by
  rw [← joinMarkers_split s, ← joinMarkers_split t, squeeze_joinMarkers (isDigits_of_mem_split s),
    squeeze_joinMarkers (isDigits_of_mem_split t), h.last.squeeze_eq]
  have hfound := h.found
  generalize (markers.split s).1 = found at hfound ⊢
  generalize (markers.split t).1 = found' at hfound ⊢
  congr 1
  induction hfound with
  | nil => rfl
  | cons hxy _ ih => rw [List.flatMap_cons, List.flatMap_cons, ih, hxy.1, hxy.2.squeeze_eq]

theorem hasPlainBlanks (h : RelaidText s t) : HasPlainBlanks t := by
  intro c hc hblank
  rw [← joinMarkers_split t] at hc
  rcases List.mem_append.mp hc with hc | hc
  · obtain ⟨y, hy, hc⟩ := List.mem_flatMap.mp hc
    obtain ⟨x, -, -, hxy⟩ := exists_of_mem_forall₂ h.found hy
    rcases List.mem_append.mp hc with hc | hc
    · exact hxy.plain c hc hblank
    · rw [isBlank_eq_false_of_mem_written (isDigits_of_mem_split t y hy) hc] at hblank
      simp at hblank
  · exact h.last.plain c hc hblank

/-- A text that is laid out has the bad attributes that the text has with its blanks squeezed. -/
theorem occursIn_eq (h : RelaidText s t) :
    badAttributes.occursIn t = badAttributes.occursIn (squeeze s) := by
  rw [h.squeeze_eq, squeezes_badAttributes.occursIn_squeeze h.hasPlainBlanks]

theorem occursIn_eq_false (h : RelaidText s t) (hs : badAttributes.occursIn s = false) :
    badAttributes.occursIn t = false := by
  rw [h.occursIn_eq]
  by_contra hbad
  rw [occursIn_badAttributes_of_squeeze (by simpa using hbad)] at hs
  simp at hs

end RelaidText

namespace Job

variable {j : Job}

theorem layTextToken_of_code {s : Text} (hs : HasCode j.table s) (offset tail : Nat) (p : Page) :
    j.layTextToken offset s tail p =
      if badAttributes.occursIn s then .error ⟨.badAttribute (j.table.restore (trim s)), p⟩
      else j.layPieces offset ((markers.split s).1.map (pieceOf j.table)) p >>= fun p =>
        .ok (j.layText (markers.split s).2 tail p) := by
  unfold layTextToken
  dsimp only
  rw [codePieces_of_code fun x hx => hs x.2 (List.mem_map_of_mem hx)]

theorem exists_relaid_layPieces (hj : ∀ code width, j.options.formatCode code width = none)
    (hcodes : j.ReadsCode) {found : List (Text × Text)}
    (hfound : ∀ x ∈ found, (j.table.code? x.2).isSome) {offset : Nat} {p q : Page}
    (hlay : j.layPieces offset (found.map (pieceOf j.table)) p = .ok q) :
    ∃ found' : List (Text × Text), List.Forall₂ (fun x y => x.2 = y.2 ∧ Relaid x.1 y.1)
      found found' ∧
      q.output = p.output ++ found'.flatMap fun y => y.1 ++ shownCode j.table y.2 := by
  induction found generalizing offset p with
  | nil =>
    obtain rfl := Except.ok.inj hlay
    exact ⟨[], .nil, by simp⟩
  | cons x found ih =>
    obtain ⟨b, digits⟩ := x
    obtain ⟨code, hcode⟩ := Option.isSome_iff_exists.mp (hfound _ List.mem_cons_self)
    obtain ⟨tag, htag, hread⟩ := hcodes digits code hcode
    obtain ⟨q', hstep, hrest⟩ := bind_eq_ok hlay
    dsimp only [pieceOf] at hcode hstep
    rw [hcode, Option.getD_some] at hstep
    obtain ⟨r, hr, hq'⟩ := exists_emit_of_layCodeTag hj htag hstep
    obtain ⟨b', hb', hout⟩ := j.exists_relaid_layText (isGap_gapAt b r.depth) 0 p
    obtain ⟨found', hfound', hq⟩ := ih (fun y hy => hfound y (List.mem_cons_of_mem _ hy)) hrest
    have hshown : shownCode j.table digits = tag.render tag.code := by
      simp [shownCode, hcode, renderedCode, htag]
    refine ⟨(b', digits) :: found', .cons ⟨rfl, hb'⟩ hfound', ?_⟩
    rw [hq, hq', output_emit_enclosed r (isEnclosed_render hread tag.code), hr, ← List.append_assoc]
    dsimp only
    rw [hout, List.flatMap_cons, hshown]
    simp

/-- The code tags of a text, the running texts around them and the gap after the last are put out as
a text with the same markers, its code tags shown in their place. -/
theorem exists_relaid_pieces (hj : ∀ code width, j.options.formatCode code width = none)
    (hcodes : j.ReadsCode) {s gap : Text} (hs : HasCode j.table s) (hgap : IsGap s gap)
    {offset : Nat} (tail : Nat) {p r : Page}
    (hpieces : j.layPieces offset ((markers.split s).1.map (pieceOf j.table)) p = .ok r) :
    ∃ t, RelaidText s t ∧ (j.layText (markers.split s).2 tail r).output ++ gap =
      p.output ++ markers.replace (shownCode j.table) t := by
  obtain ⟨found, hfound, hr⟩ := exists_relaid_layPieces hj hcodes
    (fun x hx => hs x.2 (List.mem_map_of_mem hx)) hpieces
  have hlastGap : IsGap (markers.split s).2 gap :=
    ⟨fun h => hgap.glued (endsBlank_split s ▸ h), fun h => hgap.apart (endsBlank_split s ▸ h)⟩
  obtain ⟨last, hlast, hout⟩ := j.exists_relaid_layText hlastGap tail r
  obtain ⟨hbefore, htail⟩ := (markers_isLocal.covers).first?_split s
  have hnone : ∀ y ∈ found, markers.first? y.1 = none ∧ IsDigits y.2 := by
    intro y hy
    obtain ⟨x, hx, hdigits, hxy⟩ := exists_of_mem_forall₂ hfound hy
    refine ⟨?_, hdigits ▸ isDigits_of_mem_split s x hx⟩
    rw [← found_eq_nil_iff, ← hxy.found_eq, found_eq_nil_iff]
    exact hbefore x hx
  have hnone' : markers.first? last = none := by
    rw [← found_eq_nil_iff, ← hlast.found_eq, found_eq_nil_iff]
    exact htail
  have hsplit := split_joinMarkers hnone hnone'
  refine ⟨joinMarkers found last, ⟨by rw [hsplit]; exact hfound, by rw [hsplit]; exact hlast⟩, ?_⟩
  rw [hout, hr, Recogniser.replace, hsplit, List.append_assoc]

/-- A text that is laid out has no bad attribute, and its pieces are laid out. -/
theorem exists_of_layTextToken_ok {s : Text} (hs : HasCode j.table s) {offset tail : Nat}
    {p q : Page} (hlay : j.layTextToken offset s tail p = .ok q) :
    badAttributes.occursIn s = false ∧
      ∃ r, j.layPieces offset ((markers.split s).1.map (pieceOf j.table)) p = .ok r ∧
        q = j.layText (markers.split s).2 tail r := by
  rw [layTextToken_of_code hs] at hlay
  split at hlay
  · simp at hlay
  next hgood =>
    obtain ⟨r, hpieces, hq⟩ := bind_eq_ok hlay
    exact ⟨by simpa using hgood, r, hpieces, (Except.ok.inj hq).symm⟩

/-- What a text is put out as is laid out alike, if it has no bad attribute. -/
theorem exists_layTextToken_relaid {margin s t : Text} (h : RelaidText s t) (hs : HasCode j.table s)
    (hgood : badAttributes.occursIn t = false) {offset offset' : Nat} (tail : Nat) {p q r : Page}
    (hpages : p.Matches margin q)
    (hpieces : j.layPieces offset ((markers.split s).1.map (pieceOf j.table)) p = .ok r) :
    ∃ q', j.layTextToken offset' t tail q = .ok q' ∧
      (j.layText (markers.split s).2 tail r).Matches margin q' := by
  have hagree : Agree margin (j.layPieces offset ((markers.split s).1.map (pieceOf j.table)) p)
      (j.layPieces offset' ((markers.split t).1.map (pieceOf j.table)) q) := by
    refine agree_layPieces ?_ offset offset' hpages
    rw [List.forall₂_map_left_iff, List.forall₂_map_right_iff]
    exact h.found.imp fun x y hxy => ⟨hxy.2.toRespaced, by rw [pieceOf, pieceOf, hxy.1]⟩
  rw [hpieces] at hagree
  obtain ⟨r', hr', hpages'⟩ := exists_of_agree_ok hagree
  refine ⟨j.layText (markers.split t).2 tail r', ?_, hpages'.layText j h.last.toRespaced tail⟩
  rw [layTextToken_of_code (h.hasCode hs), hgood, hr']
  rfl

end Job

end Code

end ErbLayout
