import ErbLayout.Proofs.OpenBlocks

/-!
The texts of a failure and the source. Code is put back in the text of a bad attribute and in a code
tag that closes nothing, so these stand in the source as they are told. The labels of blocks and the
closing tags are told as the layout sees them: they stand in the source once the markers in them are
replaced, which changes nothing unless a tag name holds code, or a tag name or code holds text that
looks like a marker.
-/

namespace ErbLayout

open Text Markup Code Layout MarkerTable

def visible (s : Text) : Text := s.filter fun c => !isBlank c

def Cause.labels : Cause → List Text
  | .unmatched _ labels => labels
  | _ => []

def Cause.found? : Cause → Option Text
  | .unmatched found _ => found
  | _ => none

def Cause.text? : Cause → Option Text
  | .badAttribute text => some text
  | _ => none

/-- The texts of a failure stand in the source: the labels of blocks as `read` reads them, the text
of a bad attribute as it is, and what was found, as it is or read, up to blanks. -/
structure Failure.Quotes (read : Text → Text) (source : Text) (f : Failure) : Prop where
  context : ∀ label ∈ f.context, read label <:+: source
  labels : ∀ label ∈ f.cause.labels, read label <:+: source
  text : ∀ text ∈ f.cause.text?, text <:+: source
  found : ∀ found ∈ f.cause.found?, ∃ s, (s = found ∨ s = read found) ∧
    visible s <:+: visible source

def Markup.Lexeme.tagName? : Lexeme → Option Text
  | .tag (.opening name _ _ _) => some name
  | .tag (.closing _ name _) => some name
  | _ => none

/-- No marker stands in a tag name of the body, nor in the code that was taken out. -/
structure HasPlainNames (body : Text) (table : MarkerTable) : Prop where
  tags : ∀ t ∈ tokens body, ∀ name ∈ t.lexeme.tagName?, markers.first? name = none
  codes : ∀ code ∈ table.codes, markers.first? code = none

instance (body : Text) (table : MarkerTable) : Decidable (HasPlainNames body table) :=
  decidable_of_iff ((∀ t ∈ tokens body, ∀ name ∈ t.lexeme.tagName?, markers.first? name = none) ∧
    ∀ code ∈ table.codes, markers.first? code = none)
    ⟨fun h => ⟨h.1, h.2⟩, fun h => ⟨h.tags, h.codes⟩⟩

section Restoring

theorem visible_append (s t : Text) : visible (s ++ t) = visible s ++ visible t :=
  List.filter_append ..

theorem visible_isInfix {s t : Text} (h : s <:+: t) : visible s <:+: visible t := by
  obtain ⟨u, v, rfl⟩ := h
  exact ⟨visible u, visible v, by simp [visible_append]⟩

theorem first?_of_isInfix {s t : Text} (ht : markers.first? t = none) (h : s <:+: t) :
    markers.first? s = none := by
  obtain ⟨u, v, rfl⟩ := h
  rw [Recogniser.first?_eq_none_iff] at ht ⊢
  rintro w ⟨x, rfl⟩
  cases hrun : markers.run w with
  | none => rfl
  | some found =>
    have hlonger := markers_isLocal.run_append hrun v
    rw [ht (w ++ v) ⟨u ++ x, by simp⟩] at hlonger
    simp at hlonger

theorem restore_eq_self (table : MarkerTable) {s : Text} (h : markers.first? s = none) :
    table.restore s = s := by
  rw [restore, restoreFrom, restoreFrom, Recogniser.replace_of_first?_eq_none _ h,
    Recogniser.replace_of_first?_eq_none _ h]

/-- What stands apart from the text around it is restored there as it is alone. -/
theorem restore_isInfix (table : MarkerTable) {u v : Text} (hu : EndsApart u) (hv : StartsApart v)
    (s : Text) :
    table.restore s <:+: table.restore (u ++ (s ++ v)) := by
  rw [(isParted_restore table).append_of_endsApart hu,
    (isParted_restore table).append_of_startsApart s hv]
  exact ⟨table.restore u, table.restore v, by simp⟩

theorem restore_closing (table : MarkerTable) (name : Text) :
    table.restore ('<' :: '/' :: (name ++ ['>'])) =
      '<' :: '/' :: (table.restore name ++ ['>']) := by
  have hstart := restore_apart table (u := ['<', '/']) (by simp; decide) (name ++ ['>'])
  have hend := restore_append_cons table name (c := '>') (by decide) []
  rw [restore_nil] at hend
  rw [← hend]
  exact hstart

/-- The code of a tag stands apart from its delimiters. -/
theorem exists_apart_code {tag : CodeTag} (h : tag.IsRead) :
    ∃ u v, tag.written = u ++ (tag.code ++ v) ∧ EndsApart u ∧ StartsApart v := by
  have hopening : ∀ c ∈ tag.opening, isMarkerChar c = false := by
    rcases h.opening with ho | ho | ho | ho <;> rw [ho] <;> simp <;> decide
  refine ⟨tag.opening ++ tag.lead, tag.trail ++ tag.closing, by simp [CodeTag.written], ?_, ?_⟩
  · intro c hc
    rcases List.mem_append.mp (List.mem_of_mem_getLast? hc) with hc | hc
    · exact hopening c hc
    · exact isMarkerChar_eq_false_of_isBlank (h.lead c hc)
  · refine startsApart_append ?_ ?_
    · intro c hc
      exact isMarkerChar_eq_false_of_isBlank (h.trail c (List.mem_of_mem_head? hc))
    · rcases h.closing with hclosing | hclosing <;> rw [hclosing] <;>
        exact startsApart_cons (by decide) _

/-- The name of an opening tag stands apart from the rest of it. -/
theorem exists_apart_name {name attributes gap : Text} {ending : Ending}
    (hrun : tags.run (Tag.opening name attributes gap ending).written =
      some (.opening name attributes gap ending, [])) :
    ∃ u v, (Tag.opening name attributes gap ending).written = u ++ (name ++ v) ∧ EndsApart u ∧
      StartsApart v := by
  obtain ⟨l, rfl⟩ := exists_attributes_of_run hrun
  have hread := tag?_eq_some_isRead hrun
  refine ⟨['<'], l.flatMap SpacedAttribute.text ++ (gap ++ ending.written),
    by simp [Tag.written], ?_, ?_⟩
  · exact endsApart_concat (s := []) (by decide)
  · refine startsApart_append (startsApart_flatMap fun x _ => startsApart_text x)
      (startsApart_append ?_ ?_)
    · intro c hc
      exact isMarkerChar_eq_false_of_isBlank (hread.2 c (List.mem_of_mem_head? hc))
    · cases ending <;> exact startsApart_cons (by decide) _

end Restoring

section Body

theorem body_isInfix (source : Text) : (splitFrontMatter source).2 <:+: source :=
  ⟨(splitFrontMatter source).1.getD [], [], by rw [List.append_nil, splitFrontMatter_append]⟩

variable {body : Text}

theorem mem_codes_of_code? {table : MarkerTable} {digits code : Text}
    (h : table.code? digits = some code) :
    code ∈ table.codes := by
  obtain ⟨n, -, hget⟩ := Option.bind_eq_some_iff.mp h
  split at hget
  · simp at hget
  · exact List.mem_of_getElem? hget

theorem exists_of_names_text {s label : Text}
    (h : (Lexeme.text s).Names (extractCode body).2 label) :
    ∃ x ∈ (markers.split s).1, ∃ tag : CodeTag, tag.IsRead ∧
      (extractCode body).2.code? x.2 = some tag.written ∧
      label = tag.code := by
  obtain ⟨x, hx, written, tag, hcode, htag, rfl⟩ := h
  obtain ⟨tag', htag', hread, rfl⟩ := exists_codeTag_of_code? hcode
  obtain rfl : tag = tag' := Option.some.inj (htag.symm.trans htag')
  exact ⟨x, hx, tag, hread, hcode, rfl⟩

theorem isRead_of_mem_tokens {t : Token} {tag : Tag} (ht : t ∈ tokens body)
    (hl : t.lexeme = .tag tag) : tag.IsRead := by
  have hfits := fits_of_mem_tokens ht
  rw [hl] at hfits
  exact tag?_eq_some_isRead (hfits [])

variable {t : Token} (ht : t ∈ tokens (extractCode body).1)
include ht

theorem restore_written_isInfix : (extractCode body).2.restore t.lexeme.written <:+: body := by
  obtain ⟨before, after, hts⟩ := List.append_of_mem ht
  have hsource := sourceOf_tokens body
  rw [hts, sourceOf_append, sourceOf_cons] at hsource
  exact ⟨_, _, by simpa using hsource⟩

/-- What a lexeme can name a block stands in the body, once the markers in it are replaced. -/
theorem restore_label_isInfix {label : Text} (hnames : t.lexeme.Names (extractCode body).2 label) :
    (extractCode body).2.restore label <:+: body := by
  have hwritten := restore_written_isInfix ht
  have hfits := fits_of_mem_tokens ht
  generalize t.lexeme = l at hwritten hnames hfits
  cases l with
  | text s =>
    obtain ⟨x, hx, tag, hread, hcode, rfl⟩ := exists_of_names_text hnames
    obtain ⟨earlier, later, hfound⟩ := List.append_of_mem hx
    obtain ⟨u, v, hparts, hu, hv⟩ := exists_apart_code hread
    have hs : (extractCode body).2.restore tag.written <:+: (extractCode body).2.restore s := by
      rw [← Job.append_of_split hfound, restore_append_marker hcode]
      exact ⟨_, _, List.append_assoc ..⟩
    refine List.IsInfix.trans ?_ (hs.trans hwritten)
    rw [hparts]
    exact restore_isInfix _ hu hv tag.code
  | raw s => exact hnames.elim
  | unrecognized s => exact hnames.elim
  | tag tag =>
    cases tag with
    | closing lead name trail => exact hnames.elim
    | opening name attributes gap ending =>
      obtain rfl : label = name := hnames
      have hrun := hfits []
      rw [List.append_nil] at hrun
      obtain ⟨u, v, hparts, hu, hv⟩ := exists_apart_name hrun
      refine List.IsInfix.trans ?_ hwritten
      change _ <:+: (extractCode body).2.restore (Tag.opening label attributes gap ending).written
      rw [hparts]
      exact restore_isInfix _ hu hv label

/-- A closing tag stands in the body up to blanks, once the markers in its name are replaced. -/
theorem visible_closing_isInfix {lead name trail : Text}
    (hl : t.lexeme = .tag (.closing lead name trail)) :
    visible ((extractCode body).2.restore ('<' :: '/' :: (name ++ ['>']))) <:+: visible body := by
  have hwritten := visible_isInfix (restore_written_isInfix ht)
  rw [hl] at hwritten
  have hread := isRead_of_mem_tokens ht hl
  have hkeep : ∀ c, isBlank c → (fun c => !isBlank c) c = false := by simp
  have hcontent := Job.content_closing (restores_filter body hkeep).toIsContent name
    hread.1 hread.2.2
  rw [visible, hcontent]
  exact hwritten

/-- Where names are plain no label holds a marker. -/
theorem first?_of_names (hplain : HasPlainNames (extractCode body).1 (extractCode body).2)
    {label : Text} (hnames : t.lexeme.Names (extractCode body).2 label) :
    markers.first? label = none := by
  have hname := hplain.tags t ht
  generalize t.lexeme = l at hnames hname
  cases l with
  | text s =>
    obtain ⟨x, -, tag, hread, hcode, rfl⟩ := exists_of_names_text hnames
    obtain ⟨u, v, hparts, -⟩ := exists_apart_code hread
    exact first?_of_isInfix (hplain.codes _ (mem_codes_of_code? hcode))
      ⟨u, v, by rw [hparts, List.append_assoc]⟩
  | raw s => exact hnames.elim
  | unrecognized s => exact hnames.elim
  | tag tag =>
    cases tag with
    | closing lead name trail => exact hnames.elim
    | opening name attributes gap ending =>
      obtain rfl : label = name := hnames
      exact hname label rfl

end Body

section Stops

/-- The labels that are told when a layout stops are those of open blocks. -/
def Stop.TellsOpen (s : Stop) : Prop :=
  ∀ label ∈ s.cause.labels, ∃ b ∈ s.page.blocks, b.label = label

theorem tellsOpen_innermost (found : Text) (p : Page) :
    Stop.TellsOpen ⟨.unmatched (some found) (p.blocks.head?.toList.map Block.label), p⟩ := by
  intro label hlabel
  obtain ⟨b, hb, rfl⟩ := List.mem_map.mp hlabel
  exact ⟨b, List.mem_of_mem_head? (by simpa using hb), rfl⟩

namespace Job

variable {j : Job} {stop : Stop}

theorem tellsOpen_layToken {t : Token} {following : List Token} {p : Page}
    (h : j.layToken t following p = .error stop) : stop.TellsOpen := by
  obtain ⟨offset, afterBlank, lexeme⟩ := t
  unfold layToken at h
  dsimp only at h
  cases lexeme with
  | raw s => simp at h
  | unrecognized s =>
    obtain rfl := Except.error.inj h
    simp [Stop.TellsOpen, Cause.labels]
  | tag tag =>
    cases tag with
    | closing lead name trail =>
      obtain rfl := Page.stop_of_pop (bind_ok_eq_error h)
      exact tellsOpen_innermost _ _
    | opening name attributes gap ending =>
      simp only [layOpening] at h
      split at h
      · obtain rfl := Except.error.inj h
        simp [Stop.TellsOpen, Cause.labels]
      · simp at h
  | text s =>
    simp only [layTextToken] at h
    split at h
    · obtain rfl := Except.error.inj h
      simp [Stop.TellsOpen, Cause.labels]
    · obtain ⟨before, x, after, q, -, -, -, hstop⟩ :=
        exists_of_layPieces_eq_error (bind_ok_eq_error h)
      obtain rfl := stop_of_layCodeTag hstop
      exact tellsOpen_innermost _ _

theorem tellsOpen_layBody {body : Text} (h : j.layBody body = .error stop) : stop.TellsOpen := by
  rcases j.layBody_cases body with ⟨stop', hlay, hbody⟩ | ⟨p, -, -, hbody⟩ | ⟨p, hlay, -, hbody⟩
  · obtain rfl := Except.error.inj (h.symm.trans hbody)
    obtain ⟨before, t, after, q, -, -, -, hstop⟩ :=
      exists_of_layTokens_eq_error (fun t => fits_of_mem_tokens) hlay
    exact tellsOpen_layToken hstop
  · simp [hbody] at h
  · obtain rfl := Except.error.inj (h.symm.trans hbody)
    intro label hlabel
    simpa [Cause.labels, BlockStack.labels] using hlabel

/-- The text that stops a layout stands in the body, and what is found stands there or is a closing
tag. -/
theorem isInfix_of_layBody {body : Text} (htable : j.table = (extractCode body).2)
    (h : j.layBody (extractCode body).1 = .error stop) :
    (∀ text ∈ stop.cause.text?, text <:+: body) ∧
      ∀ found ∈ stop.cause.found?, found <:+: body ∨ ∃ t ∈ tokens (extractCode body).1,
        ∃ lead name trail,
        t.lexeme = .tag (.closing lead name trail) ∧ found = '<' :: '/' :: (name ++ ['>']) := by
  obtain ⟨before, rest, -, -, hbody, hobstacle⟩ := exists_obstacle htable h
  generalize stop.cause = cause at hobstacle
  cases hobstacle with
  | atEnd => simp [Cause.text?, Cause.found?]
  | @token us vs t _ rest _ hts _ hblocks =>
    have ht : t ∈ tokens (extractCode body).1 := by simp [hts]
    generalize hl : t.lexeme = l at hblocks
    cases hblocks with
    | @text s _ =>
      have hs : j.table.restore s <:+: body :=
        ⟨j.table.restore before, sourceOf j.table vs, by simp [hbody]⟩
      simpa [Cause.text?, Cause.found?] using (trim_isInfix _).trans hs
    | @code s _ _ code _ later =>
      have hcode : j.table.restore code <:+: body := ⟨j.table.restore before,
        j.table.restore (joinMarkers later (markers.split s).2) ++ sourceOf j.table vs, by
        simp [hbody]⟩
      simpa [Cause.text?, Cause.found?] using Or.inl hcode
    | @closing lead name trail =>
      refine ⟨by simp [Cause.text?], ?_⟩
      rintro found ⟨⟩
      exact Or.inr ⟨t, ht, lead, name, trail, hl, rfl⟩

/-- A failure quotes the source when the names of blocks and the closing tags do, as they are
read. -/
theorem quotes_failureAt {read : Text → Text} {source : Text}
    (htable : j.table = (markedBody source).2)
    (hlabels : ∀ t ∈ tokens (markedBody source).1, ∀ label, t.lexeme.Names j.table label →
      read label <:+: source) (hclosings : ∀ t ∈ tokens (markedBody source).1, ∀ lead name trail,
      t.lexeme = .tag (.closing lead name trail) →
      visible (read ('<' :: '/' :: (name ++ ['>']))) <:+: visible source)
    (h : j.layBody (markedBody source).1 = .error stop) (above : Nat) (body : Text) :
    (j.failureAt above body stop).Quotes read source := by
  have hsource := body_isInfix source
  have hopen : ∀ b ∈ stop.page.blocks, read b.label <:+: source := by
    intro b hb
    have hnamed := j.exists_names_of_layBody (markedBody source).1 b
    rw [h] at hnamed
    obtain ⟨t, ht, hnames⟩ := hnamed hb
    exact hlabels t ht b.label hnames
  obtain ⟨htext, hfound⟩ := isInfix_of_layBody htable h
  refine ⟨?_, ?_, fun text hmem => (htext text hmem).trans hsource, ?_⟩
  · intro label hlabel
    obtain ⟨b, hb, rfl⟩ := Option.map_eq_some_iff.mp hlabel
    exact hopen b (List.mem_of_mem_head? hb)
  · intro label hlabel
    obtain ⟨b, hb, rfl⟩ := tellsOpen_layBody h label hlabel
    exact hopen b hb
  · intro found hmem
    rcases hfound found hmem with hstands | ⟨t, ht, lead, name, trail, hl, rfl⟩
    · exact ⟨found, Or.inl rfl, visible_isInfix (hstands.trans hsource)⟩
    · exact ⟨_, Or.inr rfl, hclosings t ht lead name trail hl⟩

end Job

end Stops

/-- The texts of a failure stand in the source once the markers in them are replaced, and as they
are told where names are plain. -/
theorem quotes_of_formatDocument (options : Options) (source : Text) (failure : Failure)
    (h : formatDocument options source = .error failure) :
    failure.Quotes (markedBody source).2.restore source ∧
      (HasPlainNames (markedBody source).1 (markedBody source).2 → failure.Quotes id source) := by
  have hsource := body_isInfix source
  rw [formatDocument_eq] at h
  split at h
  · simp at h
  next stop hstop =>
    obtain rfl := Except.error.inj h
    have hlabels : ∀ t ∈ tokens (markedBody source).1, ∀ label,
      t.lexeme.Names (markedBody source).2 label →
        (markedBody source).2.restore label <:+: source :=
      fun t ht label hnames => (restore_label_isInfix ht hnames).trans hsource
    have hclosings : ∀ t ∈ tokens (markedBody source).1, ∀ lead name trail,
      t.lexeme = .tag (.closing lead name trail) →
        visible ((markedBody source).2.restore ('<' :: '/' :: (name ++ ['>']))) <:+:
        visible source :=
      fun t ht lead name trail hl => (visible_closing_isInfix ht hl).trans (visible_isInfix hsource)
    refine ⟨Job.quotes_failureAt rfl hlabels hclosings hstop _ _, fun hplain => ?_⟩
    -- with plain names there is nothing to replace
    refine Job.quotes_failureAt rfl ?_ ?_ hstop _ _
    · intro t ht label hnames
      rw [id, ← restore_eq_self (markedBody source).2 (first?_of_names ht hplain hnames)]
      exact hlabels t ht label hnames
    · intro t ht lead name trail hl
      have hname := restore_eq_self (markedBody source).2 (hplain.tags t ht name (by rw [hl]; rfl))
      have hclosing := hclosings t ht lead name trail hl
      rwa [restore_closing, hname] at hclosing

/-- Text that looks like a marker does no harm outside tag names and code. -/
theorem quotes_of_formatDocument_strayClosing :
    ∃ source failure, source =
      "---\na: b\n---\nerb7tag <ul id=\"<%= x %>\">\n<% xs.each do |y| %>\n</ ul >\n".toList ∧
      formatDocument {} source = .error failure ∧ failure.context = some "xs.each do |y|".toList ∧
      HasPlainNames (markedBody source).1 (markedBody source).2 ∧
      failure.Quotes (markedBody source).2.restore source ∧ failure.Quotes id source := by
  have hfails : formatDocument {}
      "---\na: b\n---\nerb7tag <ul id=\"<%= x %>\">\n<% xs.each do |y| %>\n</ ul >\n".toList =
      .error ⟨.unmatched (some "</ul>".toList) ["xs.each do |y|".toList], "(erb)".toList, 6,
        some "xs.each do |y|".toList⟩ := by
    decide +kernel
  have hplain :
      let marked := markedBody
        "---\na: b\n---\nerb7tag <ul id=\"<%= x %>\">\n<% xs.each do |y| %>\n</ ul >\n".toList
      HasPlainNames marked.1 marked.2 := by
    decide +kernel
  obtain ⟨hquotes, hid⟩ := quotes_of_formatDocument _ _ _ hfails
  exact ⟨_, _, rfl, hfails, rfl, hplain, hquotes, hid hplain⟩

/-- Code with text that looks like a marker, and a tag whose name is code, are told with markers. -/
theorem not_quotes_marked_names :
    ∃ source failure, source = "<% if erbxtag %></<%= t %>>".toList ∧
      formatDocument {} source = .error failure ∧
      failure.context = some "if erb0tag".toList ∧
      failure.cause = .unmatched (some "</erb2tag>".toList) ["if erb0tag".toList] ∧
      ¬ "if erb0tag".toList <:+: source ∧ ¬ visible "</erb2tag>".toList <:+: visible source ∧
      ¬ failure.Quotes id source := by
  have hfails : formatDocument {} "<% if erbxtag %></<%= t %>>".toList =
      .error ⟨.unmatched (some "</erb2tag>".toList) ["if erb0tag".toList], "(erb)".toList, 1,
        some "if erb0tag".toList⟩ := by
    decide +kernel
  have hcontext : ¬ "if erb0tag".toList <:+: "<% if erbxtag %></<%= t %>>".toList := by
    decide +kernel
  have hfound : ¬ visible "</erb2tag>".toList <:+:
    visible "<% if erbxtag %></<%= t %>>".toList := by decide +kernel
  exact ⟨_, _, rfl, hfails, rfl, rfl, hcontext, hfound, fun hquotes =>
    hcontext (hquotes.context _ rfl)⟩

end ErbLayout
