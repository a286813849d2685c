import ErbLayout.Proofs.Layout.OpeningTag
import ErbLayout.Proofs.Layout.Spread
import ErbLayout.Proofs.Preservation

/-!
Layout keeps what is glued glued and what is apart apart. The words, tags, code tags and raw
contents of a body are put out in the order they have in it, and a blank stands right before one of
them in the output exactly when one stands right before it in the body. The invariant of a layout is
that the part of the body that was read and the output are spread over the same row of pieces, and
that the output ends with a blank only if that part does.
-/

namespace ErbLayout

open Text Markup Code Layout

def wordPieces (s : Text) : List Piece := (words s).map .word

def textPieces (table : MarkerTable) (s : Text) : List Piece :=
  let (pieces, last) := Job.codePieces table [] (markers.split s).1 (markers.split s).2
  pieces.flatMap (fun (before, marker, code) => wordPieces before ++ [.code marker code]) ++
    wordPieces last

def Markup.Lexeme.pieces (table : MarkerTable) : Lexeme → List Piece
  | .text s => textPieces table s
  | .raw s => if allBlank s then [] else [.raw s]
  | .tag t => [.tag t]
  | .unrecognized _ => []

/-- The pieces of a body in which markers stand for code: the words and code tags of its texts, its
tags, and the raw contents that are not all blank. -/
def piecesOf (table : MarkerTable) (body : Text) : List Piece :=
  (lexemes body).flatMap (Lexeme.pieces table)

def Piece.written : Piece → Text
  | .word s => s
  | .code marker _ => marker
  | .tag t => t.written
  | .raw s => trimEnd s

namespace Job

def style (j : Job) : AttributeStyle :=
  ⟨j.options.lineWidth, j.options.singleClassPerLine, j.options.ranking⟩

def Lays (j : Job) : Piece → Text → Prop
  | .word w, s => s = w
  | .code _ written, s => ∃ tag, CodeTag.ofText? written = some tag ∧ s = tag.render tag.code
  | .tag (.opening name attributes _ ending), s =>
    ∃ depth, s = laidTag j.style j.width name attributes ending depth
  | .tag (.closing _ name _), s => s = '<' :: '/' :: (name ++ ['>'])
  | .raw r, s => s = trimEnd r

/-- The part of the body that was read and the output are spread over one row, made of the
pieces. -/
structure InStep (j : Job) (pieces : List Piece) (read output : Text) : Prop where
  row : ∃ row : List (Piece × Bool), row.map Prod.fst = pieces ∧
    Spread (fun x s => s = x.written) row read ∧
    Spread j.Lays row output
  blank : endsBlank output → endsBlank read

end Job

theorem IsEnclosed.isVisible {s : Text} (h : IsEnclosed s) : IsVisible s := by
  obtain ⟨u, rfl⟩ := h
  refine ⟨List.cons_ne_nil _ _, ?_, ?_⟩
  · rw [startsBlank_cons]
    decide
  · rw [← List.cons_append, endsBlank_concat]
    decide

theorem flatMap_codePieces_written (table : MarkerTable) (before : Text)
    (found : List (Text × Text)) (tail : Text) :
    (Job.codePieces table before found tail).1.flatMap (fun x => x.1 ++ x.2.1) ++
        (Job.codePieces table before found tail).2 =
      before ++ (found.flatMap (fun x => x.1 ++ markers.written x.2) ++ tail) := by
  induction found generalizing before with
  | nil => simp [Job.codePieces]
  | cons y found ih =>
    obtain ⟨b, digits⟩ := y
    cases hcode : table.code? digits with
    | some code => simpa [Job.codePieces, hcode] using ih []
    | none => simpa [Job.codePieces, hcode] using ih (before ++ b ++ markers.written digits)

namespace Job

variable {j : Job} {pieces : List Piece} {read output : Text}

theorem inStep_nil (j : Job) : j.InStep [] [] [] := ⟨⟨[], rfl, .nil, .nil⟩, id⟩

/-- Blanks of the body may be passed over. -/
theorem InStep.skip (h : j.InStep pieces read output) {b : Text} (hb : ∀ c ∈ b, isBlank c) :
    j.InStep pieces (read ++ b) output := by
  obtain ⟨⟨row, hrow, hread, hout⟩, hblank⟩ := h
  refine ⟨⟨row, hrow, hread.blanks hb, hout⟩, ?_⟩
  intro hend
  by_cases hnil : b = []
  · rw [hnil, List.append_nil]
    exact hblank hend
  · exact endsBlank_append_blanks read hnil hb

/-- A piece is put out on a new line exactly when a blank stands before it in the body. -/
theorem InStep.emit (h : j.InStep pieces read output) {x : Piece} {s : Text} (hs : j.Lays x s)
    (hvisible : IsVisible s) (depth : Nat) :
    j.InStep (pieces ++ [x]) (read ++ x.written)
      (output ++ if endsBlank read then onNewLine depth s else s) := by
  obtain ⟨⟨row, hrow, hread, hout⟩, hblank⟩ := h
  have hline : endsBlank read = false → endsBlank output = false := by
    intro hend
    by_contra hne
    rw [hblank (by simpa using hne)] at hend
    simp at hend
  refine ⟨⟨row ++ [(x, endsBlank read)], by simp [hrow], hread.piece rfl,
    hout.emit hs hvisible hline depth⟩, ?_⟩
  intro hend
  have hvisible' : endsBlank (output ++ if endsBlank read then onNewLine depth s else s) =
      false := by
    split
    · rw [onNewLine, hvisible.trim_eq, ← List.cons_append, ← List.append_assoc]
      exact hvisible.endsBlank_append _
    · exact hvisible.endsBlank_append _
  rw [hvisible'] at hend
  simp at hend

/-- Lines of words put out one after the other, the first on a new line or not. -/
theorem spread_foldl_emit {row : List (Piece × Bool)} {groups : List (List Text)}
    (hne : ∀ g ∈ groups, g ≠ []) (hvisible : ∀ g ∈ groups, ∀ w ∈ g, IsVisible w) (q : Page)
    (newLine : Bool) (hq : Spread j.Lays row q.output) (hend : endsBlank q.output = false) :
    Spread j.Lays (row ++ wordRow newLine groups.flatten)
        ((groups.map (join [' '])).foldl (fun acc line => (acc.1.emit line acc.2, true))
          (q, newLine)).1.output ∧
      endsBlank ((groups.map (join [' '])).foldl (fun acc line => (acc.1.emit line acc.2, true))
        (q, newLine)).1.output = false := by
  induction groups generalizing row q newLine with
  | nil => exact ⟨by simpa [wordRow] using hq, hend⟩
  | cons g groups ih =>
    have hg : g ≠ [] := hne g List.mem_cons_self
    have hline : IsVisible (join [' '] g) := isVisible_join hg (hvisible g List.mem_cons_self)
    have hout : Spread j.Lays (row ++ wordRow newLine g)
        (q.emit (join [' '] g) newLine).output := by
      rw [Page.output_emit]
      cases newLine with
      | false =>
        have hwords := hq.line (fun w => rfl) g
        rwa [hend] at hwords
      | true =>
        have hwords := (hq.blanks (b := '\n' :: indentation q.depth) fun c =>
          isBlank_of_mem_indentation).line (fun w => rfl) g
        rw [endsBlank_append_blanks _ (List.cons_ne_nil _ _) fun c =>
          isBlank_of_mem_indentation] at hwords
        simpa [onNewLine, hline.trim_eq] using hwords
    have hend' : endsBlank (q.emit (join [' '] g) newLine).output = false := by
      rw [Page.output_emit]
      cases newLine with
      | false => exact hline.endsBlank_append _
      | true =>
        rw [if_pos rfl, onNewLine, hline.trim_eq, ← List.cons_append, ← List.append_assoc]
        exact hline.endsBlank_append _
    rw [List.map_cons, List.foldl_cons, List.flatten_cons, wordRow_append newLine hg,
      ← List.append_assoc]
    exact ih (fun g' hg' => hne g' (List.mem_cons_of_mem g hg'))
      (fun g' hg' => hvisible g' (List.mem_cons_of_mem g hg')) _ true hout hend'

/-- Running text that does not follow a blank is laid out word by word. -/
theorem InStep.layText {p : Page} (h : j.InStep pieces read p.output)
    (hread : endsBlank read = false) (s : Text) (tail : Nat) :
    j.InStep (pieces ++ wordPieces s) (read ++ s) (j.layText s tail p).output := by
  unfold Job.layText
  split
  next hempty =>
    have hnil : s = [] := by simpa using hempty
    subst hnil
    simpa [wordPieces, words_nil] using h
  next =>
    obtain ⟨⟨row, hrow, hspread, hout⟩, hblank⟩ := h
    have hend : endsBlank p.output = false := by
      by_contra hne
      rw [hblank (by simpa using hne)] at hread
      simp at hread
    have hwords : ∀ w ∈ words s, w ≠ [] := fun w hw => (of_mem_words hw).1
    dsimp only [reflow]
    generalize (if startsBlank s then j.room p
      else j.options.lineWidth - j.width (lastLine p.output)) = first
    obtain ⟨groups, hpack, hflat, hne⟩ := exists_groups_pack j.width first (j.room p) tail hwords
    have hvisible : ∀ g ∈ groups, ∀ w ∈ g, IsVisible w := by
      intro g hg w hw
      apply isVisible_of_mem_words (s := s)
      rw [← hflat]
      exact List.mem_flatten.mpr ⟨g, hg, hw⟩
    obtain ⟨hlaid, hvisible'⟩ := spread_foldl_emit hne hvisible (p.note (.text s))
      (startsBlank s) hout hend
    have hspread' := hspread.words (fun w => rfl) s
    rw [hread, Bool.false_or] at hspread'
    have hrow' : (row ++ wordRow (startsBlank s) (words s)).map Prod.fst =
        pieces ++ wordPieces s := by
      rw [List.map_append, map_wordRow, hrow]
      rfl
    rw [hflat] at hlaid
    rw [hpack]
    split
    next hbreak =>
      -- a paragraph break follows blanks of the body
      refine ⟨⟨_, hrow', hspread', hlaid.blanks (by simp; decide)⟩, fun _ => ?_⟩
      have hcount : 1 < (trailingBlanks s).count '\n' := by simpa using hbreak
      have hne' : trailingBlanks s ≠ [] := by
        intro hnil
        rw [hnil] at hcount
        simp at hcount
      rw [← trimEnd_append_trailingBlanks s, ← List.append_assoc]
      exact endsBlank_append_blanks _ hne' fun c => isBlank_of_mem_trailingBlanks
    next =>
      refine ⟨⟨_, hrow', hspread', hlaid⟩, fun hcontra => ?_⟩
      rw [hvisible'] at hcontra
      simp at hcontra

/-- Every marker that stands for code stands for a code tag. -/
def ReadsCode (j : Job) : Prop :=
  ∀ digits code, j.table.code? digits = some code → ∃ tag, CodeTag.ofText? code = some tag ∧
    tag.IsRead

theorem endsBlank_append_marker (t digits : Text) :
    endsBlank (t ++ markers.written digits) = false := by
  have hlast : t ++ markers.written digits = t ++ (['e', 'r', 'b'] ++ digits ++ ['t', 'a']) ++
      ['g'] := by
    simp [markers]
  rw [hlast, endsBlank_concat]
  decide

theorem InStep.layPieces (hj : ∀ code width, j.options.formatCode code width = none)
    (hcodes : j.ReadsCode) {found : List (Text × Text × Text)}
    (hfound : ∀ x ∈ found, ∃ digits, j.table.code? digits = some x.2.2 ∧
      x.2.1 = markers.written digits) {offset : Nat} {p p' : Page}
    (h : j.InStep pieces read p.output) (hread : endsBlank read = false)
    (hlay : j.layPieces offset found p = .ok p') :
    j.InStep (pieces ++ found.flatMap fun (before, marker, code) =>
      wordPieces before ++ [.code marker code])
        (read ++ found.flatMap fun x => x.1 ++ x.2.1) p'.output ∧
      endsBlank (read ++ found.flatMap fun x => x.1 ++ x.2.1) = false := by
  -- carried along: what was read ends with a marker, so no blank stands before the next text
  induction found generalizing offset pieces read p with
  | nil =>
    obtain rfl := Except.ok.inj hlay
    exact ⟨by simpa using h, by simpa using hread⟩
  | cons x found ih =>
    obtain ⟨before, marker, code⟩ := x
    obtain ⟨digits, hcode, hmarker⟩ := hfound _ List.mem_cons_self
    obtain ⟨tag, htag, htagRead⟩ := hcodes digits code hcode
    unfold Job.layPieces at hlay
    dsimp only at hlay hmarker
    obtain ⟨q, hstep, hrest⟩ := bind_eq_ok hlay
    obtain ⟨q', hq', hq⟩ := exists_emit_of_layCodeTag hj htag hstep
    have hbefore := h.layText hread before 0
    have hnewLine : endsBlank before = endsBlank (read ++ before) := by
      by_cases hnil : before = []
      · rw [hnil, List.append_nil, hread]
        rfl
      · rw [endsBlank_append read hnil]
    have hemit := hbefore.emit (x := .code marker code) ⟨tag, htag, rfl⟩
      (isEnclosed_render htagRead tag.code).isVisible q'.depth
    rw [← hnewLine] at hemit
    have hout : q.output = (j.layText before 0 p).output ++
        if endsBlank before then onNewLine q'.depth (tag.render tag.code)
        else tag.render tag.code := by
      rw [hq, Page.output_emit, hq']
    rw [← hout] at hemit
    have hend : endsBlank (read ++ before ++ marker) = false :=
      hmarker ▸ endsBlank_append_marker _ digits
    have hlater := ih (fun y hy => hfound y (List.mem_cons_of_mem _ hy)) hemit hend hrest
    simpa [Piece.written] using hlater

theorem InStep.layTextToken (hj : ∀ code width, j.options.formatCode code width = none)
    (hcodes : j.ReadsCode) {offset : Nat} {s : Text} {tail : Nat} {p p' : Page}
    (h : j.InStep pieces read p.output) (hread : endsBlank read = false)
    (hlay : j.layTextToken offset s tail p = .ok p') :
    j.InStep (pieces ++ textPieces j.table s) (read ++ s) p'.output := by
  unfold Job.layTextToken at hlay
  split at hlay
  · simp at hlay
  · dsimp only at hlay
    have hwhole := flatMap_codePieces_written j.table [] (markers.split s).1 (markers.split s).2
    rw [List.nil_append, markers.flatten_split s] at hwhole
    obtain ⟨q, hpieces, hp'⟩ := bind_eq_ok hlay
    obtain ⟨hq, hend⟩ := h.layPieces hj hcodes code?_of_mem_codePieces hread hpieces
    have hlast := hq.layText hend (codePieces j.table []
      (markers.split s).1 (markers.split s).2).2 tail
    rw [List.append_assoc, List.append_assoc, hwhole] at hlast
    rw [← Except.ok.inj hp']
    exact hlast

theorem InStep.layOpening {name attributes gap : Text} {ending : Ending} {p p' : Page}
    (h : j.InStep pieces read p.output)
    (hlay : j.layOpening name attributes ending (endsBlank read) p = .ok p') :
    j.InStep (pieces ++ [.tag (.opening name attributes gap ending)])
      (read ++ (Tag.opening name attributes gap ending).written) p'.output := by
  have hvisible : IsVisible (laidTag j.style j.width name attributes ending p.depth) :=
    (isEnclosed_opening _ _ _).isVisible
  have hemit := h.emit (x := .tag (.opening name attributes gap ending))
    ⟨p.depth, rfl⟩ hvisible p.depth
  rw [← Page.output_emit] at hemit
  unfold Job.layOpening at hlay
  split at hlay
  · simp at hlay
  · dsimp only at hlay
    rw [← Except.ok.inj hlay]
    split
    · exact hemit
    · exact hemit

theorem InStep.layClosing {lead name trail : Text} {p p' : Page} (h : j.InStep pieces read p.output)
    (hlay : Job.layClosing name (endsBlank read) p = .ok p') :
    j.InStep (pieces ++ [.tag (.closing lead name trail)])
      (read ++ (Tag.closing lead name trail).written)
      p'.output := by
  obtain ⟨q, hpop, hp'⟩ := bind_eq_ok hlay
  have hvisible : IsVisible ('<' :: '/' :: (name ++ ['>'])) :=
    IsEnclosed.isVisible ⟨'/' :: name, rfl⟩
  have hemit := h.emit (x := .tag (.closing lead name trail)) rfl hvisible q.depth
  rw [← Page.output_pop hpop, ← Page.output_emit] at hemit
  rw [← Except.ok.inj hp']
  exact hemit

theorem InStep.layRaw (h : j.InStep pieces read output) (hread : endsBlank read = false)
    (s : Text) :
    j.InStep (pieces ++ Lexeme.pieces j.table (.raw s)) (read ++ s) (output ++ trimEnd s) := by
  have htrail : ∀ c ∈ trailingBlanks s, isBlank c := fun c => isBlank_of_mem_trailingBlanks
  rw [Lexeme.pieces]
  split
  next hblank =>
    rw [trimEnd_eq_nil_iff.mpr hblank, List.append_nil, List.append_nil]
    exact h.skip fun c hc => List.all_eq_true.mp hblank c hc
  next hvisible =>
    have hne : trimEnd s ≠ [] := fun hnil => hvisible (trimEnd_eq_nil_iff.mp hnil)
    obtain ⟨⟨row, hrow, hspread, hout⟩, hblank⟩ := h
    have hflag : endsBlank output = endsBlank read := by
      rw [hread]
      by_contra hcontra
      rw [hblank (by simpa using hcontra)] at hread
      simp at hread
    have hpiece := hout.piece (x := .raw s) rfl
    rw [hflag] at hpiece
    have hraw : j.InStep (pieces ++ [.raw s]) (read ++ trimEnd s) (output ++ trimEnd s) := by
      refine ⟨⟨row ++ [(.raw s, endsBlank read)], by simp [hrow], hspread.piece rfl, hpiece⟩, ?_⟩
      intro hend
      rw [endsBlank_append _ hne, endsBlank_trimEnd] at hend
      simp at hend
    have hskip := hraw.skip htrail
    rwa [List.append_assoc, trimEnd_append_trailingBlanks] at hskip

/-- A token laid out adds its pieces, if it is a tag or no blank stands before it. -/
theorem InStep.layToken (hj : ∀ code width, j.options.formatCode code width = none)
    (hcodes : j.ReadsCode) {offset : Nat} {l : Lexeme} {following : List Token} {p p' : Page}
    (h : j.InStep pieces read p.output) (hread : l.IsTag ∨ endsBlank read = false)
    (hlay : j.layToken ⟨offset, endsBlank read, l⟩ following p = .ok p') :
    j.InStep (pieces ++ l.pieces j.table) (read ++ l.written) p'.output := by
  unfold Job.layToken at hlay
  dsimp only at hlay
  cases l with
  | text s =>
    have hp : j.InStep pieces read (Page.output { p with position := offset }) := h
    exact hp.layTextToken hj hcodes (hread.resolve_left id) hlay
  | raw s =>
    rw [← Except.ok.inj hlay, Page.output_append]
    exact h.layRaw (hread.resolve_left id) s
  | unrecognized s => simp at hlay
  | tag tag =>
    have hp : j.InStep pieces read (Page.output { p with position := offset }) := h
    cases tag with
    | opening name attributes gap ending => exact hp.layOpening hlay
    | closing lead name trail => exact hp.layClosing hlay

theorem InStep.layTokens (hj : ∀ code width, j.options.formatCode code width = none)
    (hcodes : j.ReadsCode) {ls : List Lexeme} (hne : ∀ l ∈ ls, l.written ≠ [])
    (hchain : ls.IsChain fun l l' => l.IsTag ∨ l'.IsTag) {offset : Nat} {p p' : Page}
    (h : j.InStep pieces read p.output) (hread : (∀ l ∈ ls.head?, l.IsTag) ∨ endsBlank read = false)
    (hlay : j.layTokens (place offset (endsBlank read) ls) p = .ok p') :
    j.InStep (pieces ++ ls.flatMap (Lexeme.pieces j.table))
      (read ++ ls.flatMap Lexeme.written) p'.output := by
  -- carried along: the next lexeme is a tag, or no blank stands before it
  induction ls generalizing offset pieces read p with
  | nil =>
    obtain rfl := Except.ok.inj hlay
    simpa using h
  | cons l ls ih =>
    obtain ⟨q, hstep, hrest⟩ := bind_eq_ok hlay
    have hq := h.layToken hj hcodes (hread.imp_left fun hl => hl l rfl) hstep
    have hnext : (∀ l' ∈ ls.head?, l'.IsTag) ∨ endsBlank (read ++ l.written) = false := by
      cases ls with
      | nil => exact Or.inl (by simp)
      | cons l' ls =>
        rcases (List.isChain_cons_cons.mp hchain).1 with hl | hl'
        · exact Or.inr (hl.isEnclosed.isVisible.endsBlank_append read)
        · exact Or.inl (by simpa using hl')
    rw [← endsBlank_append read (hne l List.mem_cons_self)] at hrest
    have hlater := ih (fun l' hl' => hne l' (List.mem_cons_of_mem l hl')) hchain.of_cons hq
      hnext hrest
    simpa using hlater

theorem inStep_layBody (hj : ∀ code width, j.options.formatCode code width = none)
    (hcodes : j.ReadsCode) {body : Text} {p : Page} (hlay : j.layBody body = .ok p) :
    j.InStep (piecesOf j.table body) body p.output := by
  have hbody : (lexemes body).flatMap Lexeme.written = body := flatMap_lexemesIn none body
  have hne : ∀ l ∈ lexemes body, l.written ≠ [] := fun l hl => (fits_of_mem_lexemesIn l hl).ne_nil
  rcases j.layBody_cases body with ⟨stop, -, hstop⟩ | ⟨q, hq, -, hdone⟩ | ⟨q, -, -, hstop⟩
  · simp [hlay] at hstop
  · have hstep := (inStep_nil j).layTokens hj hcodes hne (isChain_lexemesIn none body)
      (p := Page.blank) (Or.inr rfl) hq
    obtain rfl := Except.ok.inj (hlay.symm.trans hdone)
    rw [List.nil_append, List.nil_append, hbody] at hstep
    exact hstep
  · simp [hlay] at hstop

end Job

/-- Layout without a formatter of code keeps the pieces of a document in order, and puts a blank
right before one of them exactly when a blank stands right before it in the body. -/
theorem formatDocument_keeps_adjacency (options : Options)
    (hcode : ∀ code width, options.formatCode code width = none) (source out : Text)
    (hout : formatDocument options source = .ok out) :
    ∃ (page : Page) (row : List (Piece × Bool)),
      (⟨options, (markedBody source).2⟩ : Job).layBody (markedBody source).1 = .ok page ∧
      out = attachFrontMatter (splitFrontMatter source).1
        (trim ((markedBody source).2.restore page.output)) ∧
      row.map Prod.fst = piecesOf (markedBody source).2 (markedBody source).1 ∧
      Spread (fun x s => s = x.written) row (markedBody source).1 ∧
      Spread (⟨options, (markedBody source).2⟩ : Job).Lays row page.output := by
  rw [formatDocument_eq] at hout
  split at hout
  next page hpage =>
    have hcodes : (⟨options, (markedBody source).2⟩ : Job).ReadsCode := by
      intro digits code hdigits
      obtain ⟨tag, htag, hread, -⟩ := exists_codeTag_of_code? hdigits
      exact ⟨tag, htag, hread⟩
    obtain ⟨row, hrow, hbody, hpage'⟩ := (Job.inStep_layBody hcode hcodes hpage).row
    exact ⟨page, row, hpage, (Except.ok.inj hout).symm, hrow, hbody, hpage'⟩
  next => simp at hout

theorem formatDocument_keeps_adjacency_glued :
    formatDocument {} "<p>a<%=b%>c <i>d</i>\n<script> e </script></p>".toList =
        .ok "<p>a<%= b %>c\n  <i>d</i>\n  <script> e\n  </script></p>\n".toList ∧
      ∃ (page : Page) (row : List (Piece × Bool)),
        (⟨{}, (markedBody "<p>a<%=b%>c <i>d</i>\n<script> e </script></p>".toList).2⟩ : Job).layBody
          (markedBody "<p>a<%=b%>c <i>d</i>\n<script> e </script></p>".toList).1 = .ok page ∧
        "<p>a<%= b %>c\n  <i>d</i>\n  <script> e\n  </script></p>\n".toList =
          attachFrontMatter (splitFrontMatter
            "<p>a<%=b%>c <i>d</i>\n<script> e </script></p>".toList).1
            (trim ((markedBody "<p>a<%=b%>c <i>d</i>\n<script> e </script></p>".toList).2.restore
              page.output)) ∧
        row.map Prod.fst = piecesOf
          (markedBody "<p>a<%=b%>c <i>d</i>\n<script> e </script></p>".toList).2
          (markedBody "<p>a<%=b%>c <i>d</i>\n<script> e </script></p>".toList).1 ∧
        Spread (fun x s => s = x.written) row
          (markedBody "<p>a<%=b%>c <i>d</i>\n<script> e </script></p>".toList).1 ∧
        Spread (⟨{}, (markedBody "<p>a<%=b%>c <i>d</i>\n<script> e </script></p>".toList).2⟩ :
          Job).Lays row page.output := by
  have hout : formatDocument {} "<p>a<%=b%>c <i>d</i>\n<script> e </script></p>".toList =
      .ok "<p>a<%= b %>c\n  <i>d</i>\n  <script> e\n  </script></p>\n".toList := by decide +kernel
  exact ⟨hout, formatDocument_keeps_adjacency {} (fun _ _ => rfl) _ _ hout⟩

end ErbLayout
