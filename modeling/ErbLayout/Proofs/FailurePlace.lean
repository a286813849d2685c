import ErbLayout.Proofs.Acceptance
import ErbLayout.Proofs.FrontMatter
import ErbLayout.Proofs.Reextraction

/-!
The line of a failure. A layout keeps its position in the marked body, where a code tag of many
lines is one word, and the line is counted in the source of what stands before that position. The
source of tokens is that of each token, and that of a text is cut at the markers of its code tags;
so what is counted is the source up to the construct that stops the layout, and the construct begins
the rest of the source.
-/

namespace ErbLayout

open Text Markup Code Layout MarkerTable

section Restoring

theorem isParted_restore (table : MarkerTable) : IsParted table.restore where
  nil := restore_nil table
  cut s c t hc := by
    rw [restore_append_cons table s hc, restore_singleton table hc]
    rfl

theorem exists_concat_of_upToLastTag? {s t : Text} (h : upToLastTag? s = some t) :
    ∃ v, t = v ++ ['g'] := by
  induction s generalizing t with
  | nil => simp [upToLastTag?] at h
  | cons c s ih =>
    simp only [upToLastTag?] at h
    split at h
    next u hu =>
      obtain rfl : c :: u = t := by simpa using h
      obtain ⟨v, rfl⟩ := ih hu
      exact ⟨c :: v, rfl⟩
    next =>
      split at h
      next =>
        obtain rfl : c :: ['t', 'a', 'g'] = t := by simpa using h
        exact ⟨[c, 't', 'a'], rfl⟩
      next => simp at h

/-- Text that looks like a marker begins and ends with a letter. -/
theorem isVisible_markerLike {s t r : Text} (h : markerLikes.run s = some (t, r)) :
    IsVisible t := by
  change markerLike? s = some (t, r) at h
  unfold markerLike? at h
  split at h
  · simp at h
  next s' hs =>
    obtain ⟨u, hu, heq⟩ := Option.map_eq_some_iff.mp h
    obtain ⟨rfl, -⟩ : ['e', 'r', 'b'] ++ u = t ∧ _ := by simpa using heq
    obtain ⟨v, rfl⟩ := exists_concat_of_upToLastTag? hu
    refine ⟨by simp, rfl, ?_⟩
    rw [← List.append_assoc, endsBlank_concat]
    decide

variable (body : Text)

variable {body} in
/-- A marker that stands for text stands for text that looks like a marker. -/
theorem exists_run_of_literal? {digits literal : Text}
    (h : (extractCode body).2.literal? digits = some literal) :
    ∃ s r, markerLikes.run s = some (literal, r) := by
  obtain ⟨n, -, hget⟩ := Option.bind_eq_some_iff.mp h
  obtain ⟨x, hx, rfl⟩ := List.mem_map.mp (List.mem_of_getElem? hget)
  exact Recogniser.exists_run_of_mem_split hx

theorem isVisibleTable_extractCode : IsVisibleTable (extractCode body).2 where
  code digits := by
    cases hcode : (extractCode body).2.code? digits with
    | none => exact isVisible_written digits
    | some code =>
      obtain ⟨tag, -, hread, rfl⟩ := exists_codeTag_of_code? hcode
      exact IsEnclosed.isVisible hread.written_eq
  literal digits := by
    cases hliteral : (extractCode body).2.literal? digits with
    | none => exact isVisible_written digits
    | some literal =>
      obtain ⟨s, r, hrun⟩ := exists_run_of_literal? hliteral
      exact isVisible_markerLike hrun

/-- The blanks around a text are not changed by what is put back inside. -/
theorem trim_restore_extractCode (s : Text) :
    trim ((extractCode body).2.restore s) = (extractCode body).2.restore (trim s) := by
  obtain ⟨lead, hlead, hleadBlank⟩ := exists_append_trimStart s
  obtain ⟨trail, htrail, htrailBlank⟩ := exists_trimEnd_append (trimStart s)
  have hs : s = lead ++ (trim s ++ trail) := by rw [trim, ← htrail, ← hlead]
  conv_lhs => rw [hs, restore_lead _ hleadBlank, restore_trail _ _ htrailBlank,
    trim_lead hleadBlank]
  apply trim_trail htrailBlank
  · rw [(isVisibleTable_extractCode _).startsBlank_restore]
    exact startsBlank_trim s
  · rw [(isVisibleTable_extractCode _).endsBlank_restore]
    exact endsBlank_trimEnd _

end Restoring

/-- The source of tokens: each as it is written, with the code put back. -/
def sourceOf (table : MarkerTable) (ts : List Token) : Text :=
  ts.flatMap fun t => table.restore t.lexeme.written

/-- The layout goes on after the tokens, with the frames open. -/
structure Passes (probe : Text → Bool) (table : MarkerTable) (ts : List Token)
    (frames : List Frame) : Prop where
  good : ∀ t ∈ ts, ¬ t.lexeme.IsBad
  runs : runBrackets (bracketWord probe table ts) [] = some frames

/-- What of a lexeme stops a layout with the frames open: the source of the lexeme from there on,
and the cause. -/
inductive Blocks (probe : Text → Bool) (table : MarkerTable) (frames : List Frame) :
    Lexeme → Text → Cause → Prop
  /-- A text with blanks after the equals sign of an attribute stops it at once. -/
  | text {s : Text} : badAttributes.occursIn s →
      Blocks probe table frames (.text s) (table.restore s) (.badAttribute (trim (table.restore s)))
  /-- A code tag stops it when it closes no code block, after the code tags before it in the
  text. -/
  | code {s b digits code : Text} {earlier later : List (Text × Text)} {frames' : List Frame}
      {labels : List Text} :
      ¬ badAttributes.occursIn s → (markers.split s).1 = earlier ++ (b, digits) :: later →
      table.code? digits = some code →
      runBrackets ((earlier.map Prod.snd).flatMap (markerBrackets probe table)) frames =
        some frames' →
      runBrackets (codeBrackets probe code) frames' = none →
      Blocks probe table frames (.text s)
        (table.restore code ++ table.restore (joinMarkers later (markers.split s).2))
        (.unmatched (some (table.restore code)) labels)
  | closing {lead name trail : Text} {labels : List Text} : runBrackets
      [.closeTag name] frames = none →
      Blocks probe table frames (.tag (.closing lead name trail))
        ('<' :: '/' :: table.restore (lead ++ name ++ trail ++ ['>']))
        (.unmatched (some ('<' :: '/' :: (name ++ ['>']))) labels)

/-- What stops the layout of tokens: the source from there on, and the cause. -/
inductive Obstacle (probe : Text → Bool) (table : MarkerTable) (ts : List Token) :
    Text → Cause → Prop
  | token {before after : List Token} {t : Token} {frames : List Frame} {rest : Text}
      {cause : Cause} :
      ts = before ++ t :: after → Passes probe table before frames →
        Blocks probe table frames t.lexeme rest cause →
      Obstacle probe table ts (rest ++ sourceOf table after) cause
  /-- At the end of the document blocks are still open. -/
  | atEnd {frames : List Frame} {labels : List Text} : Passes probe table ts frames → frames ≠ [] →
      Obstacle probe table ts [] (.unmatched none labels)

/-- A layout with the frames open stops in a lexeme that stands at a byte offset, after what it
skipped of it. -/
structure Job.StopsIn (j : Job) (frames : List Frame) (l : Lexeme) (offset : Nat) (stop : Stop)
    (skipped rest : Text) : Prop where
  isPrefix : skipped <+: l.written
  position : stop.page.position = offset + byteSize skipped
  source : j.table.restore l.written = j.table.restore skipped ++ rest
  blocks : Blocks j.options.probe j.table frames l rest stop.cause

section Stops

theorem bind_ok_eq_error {r : Except Stop Page} {next : Page → Page} {stop : Stop}
    (h : (r >>= fun p => .ok (next p)) = .error stop) : r = .error stop := by
  cases r with
  | error s => exact h
  | ok p => simp [bind, Except.bind] at h

/-- A closer that does not close the innermost block is what was found there. -/
theorem Page.stop_of_pop {p : Page} {closer : Closer} {found : Text} {stop : Stop}
    (h : p.pop closer found = .error stop) :
    stop = ⟨.unmatched (some found) (p.blocks.head?.toList.map Block.label), p⟩ := by
  unfold Page.pop at h
  cases hblocks : p.blocks with
  | nil =>
    simp only [hblocks, BlockStack.pop] at h
    exact (Except.error.inj h).symm
  | cons top rest =>
    by_cases hclosed : top.isClosedBy closer
    · simp [hblocks, BlockStack.pop, hclosed] at h
    · simp only [hblocks, BlockStack.pop, hclosed] at h
      exact (Except.error.inj h).symm

namespace Job

variable {j : Job} {p : Page} {stop : Stop}

theorem stop_of_layCodeTag {code : Text} {newLine : Bool}
    (h : j.layCodeTag code newLine p = .error stop) :
    stop = ⟨.unmatched (some (j.table.restore code))
      (p.blocks.head?.toList.map Block.label), p⟩ := by
  unfold layCodeTag at h
  cases htag : CodeTag.ofText? code with
  | none => simp [htag] at h
  | some tag =>
    simp only [htag] at h
    cases hkind : Kind.of j.options.probe tag.code with
    | comment => simp [hkind] at h
    | standalone => simp [hkind] at h
    | expression => simp [hkind] at h
    | opener => simp [hkind] at h
    | closer =>
      simp only [hkind] at h
      exact Page.stop_of_pop (bind_ok_eq_error h)
    | reopener =>
      simp only [hkind] at h
      exact Page.stop_of_pop (bind_ok_eq_error h)

/-- A layout of pieces stops at one of its code tags, once the pieces before it are laid out. -/
theorem exists_of_layPieces_eq_error {pieces : List (Text × Text × Text)} {offset : Nat}
    (h : j.layPieces offset pieces p = .error stop) :
    ∃ before x after q, pieces = before ++ x :: after ∧
      runBrackets (before.flatMap fun y => codeBrackets j.options.probe y.2.2) p.frames =
        some q.frames ∧
      q.position = offset + byteSize (before.flatMap (fun y => y.1 ++ y.2.1) ++ x.1) ∧
      j.layCodeTag x.2.2 (endsBlank x.1) q = .error stop := by
  induction pieces generalizing offset p with
  | nil => simp [layPieces] at h
  | cons x pieces ih =>
    obtain ⟨b, written, code⟩ := x
    unfold layPieces at h
    dsimp only at h
    have hframes : Page.frames { j.layText b 0 p with position := offset + byteSize b } =
        p.frames :=
      j.frames_layText b 0 p
    have hcode := j.follows_layCodeTag code (endsBlank b)
      { j.layText b 0 p with position := offset + byteSize b }
    rw [hframes] at hcode
    cases hlay : j.layCodeTag code (endsBlank b)
        { j.layText b 0 p with position := offset + byteSize b } with
    | error s =>
      rw [hlay] at h
      refine ⟨[], _, pieces, _, rfl, ?_, ?_, hlay.trans h⟩
      · rw [hframes]
        rfl
      · rfl
    | ok q =>
      rw [hlay] at h hcode
      obtain ⟨before, x, after, q', rfl, hrun, hposition, hstop⟩ := ih h
      refine ⟨(b, written, code) :: before, x, after, q', rfl, ?_, ?_, hstop⟩
      · rw [List.flatMap_cons, runBrackets_append, hcode.2]
        exact hrun
      · simp only [List.flatMap_cons, byteSize_append] at hposition ⊢
        omega

/-- The pieces of a text before one of its code tags are the text before the marker. -/
theorem exists_of_codePieces_eq {table : MarkerTable} {start tail : Text}
    {found : List (Text × Text)} {before after : List (Text × Text × Text)} {x : Text × Text × Text}
    (probe : Text → Bool) (h : (codePieces table start found tail).1 = before ++ x :: after) :
    ∃ earlier b digits later, found = earlier ++ (b, digits) :: later ∧
      table.code? digits = some x.2.2 ∧
      (before.flatMap fun y => codeBrackets probe y.2.2) =
        (earlier.map Prod.snd).flatMap (markerBrackets probe table) ∧
      before.flatMap (fun y => y.1 ++ y.2.1) ++ x.1 = start ++ joinMarkers earlier b := by
  induction found generalizing start before with
  | nil => simp [codePieces] at h
  | cons y found ih =>
    obtain ⟨c, d⟩ := y
    cases hcode : table.code? d with
    | none =>
      -- the marker belongs to the running text
      simp only [codePieces, hcode] at h
      obtain ⟨earlier, b, digits, later, rfl, hdigits, hbrackets, hbefore⟩ := ih h
      refine ⟨(c, d) :: earlier, b, digits, later, rfl, hdigits, ?_, ?_⟩
      · simpa [markerBrackets, hcode] using hbrackets
      · simpa [joinMarkers] using hbefore
    | some code =>
      simp only [codePieces, hcode] at h
      cases before with
      | nil =>
        obtain ⟨rfl, -⟩ := List.cons.inj h
        exact ⟨[], c, d, found, rfl, hcode, rfl, by simp [joinMarkers]⟩
      | cons y before =>
        obtain ⟨rfl, hrest⟩ := List.cons.inj h
        obtain ⟨earlier, b, digits, later, rfl, hdigits, hbrackets, hbefore⟩ := ih hrest
        refine ⟨(c, d) :: earlier, b, digits, later, rfl, hdigits, ?_, ?_⟩
        · simpa [markerBrackets, hcode] using hbrackets
        · simpa [joinMarkers] using hbefore

theorem append_of_split {s b digits : Text} {earlier later : List (Text × Text)}
    (hfound : (markers.split s).1 = earlier ++ (b, digits) :: later) :
    joinMarkers earlier b ++
      (markers.written digits ++ joinMarkers later (markers.split s).2) = s := by
  have hself := joinMarkers_split s
  rw [hfound] at hself
  simpa [joinMarkers] using hself

/-- A layout of a text stops at the text, or at one of its code tags. -/
theorem stopsIn_layTextToken {body : Text} (htable : j.table = (extractCode body).2) {s : Text}
    {tail : Nat} (h : j.layTextToken p.position s tail p = .error stop) :
    ∃ skipped rest, j.StopsIn p.frames (.text s) p.position stop skipped rest := by
  unfold layTextToken at h
  by_cases hbad : badAttributes.occursIn s
  · rw [if_pos hbad] at h
    obtain rfl := Except.error.inj h
    have htrim : j.table.restore (trim s) = trim (j.table.restore s) := by
      rw [htable, trim_restore_extractCode]
    refine ⟨[], j.table.restore s, List.nil_prefix, by simp, by rw [restore_nil]; rfl, ?_⟩
    dsimp only
    rw [htrim]
    exact .text hbad
  · rw [if_neg hbad] at h
    dsimp only at h
    obtain ⟨before, x, after, q, hpieces, hrun, hposition, hstop⟩ :=
      exists_of_layPieces_eq_error (bind_ok_eq_error h)
    obtain ⟨earlier, b, digits, later, hfound, hcode, hbrackets, hbefore⟩ :=
      exists_of_codePieces_eq j.options.probe hpieces
    have hfails : runBrackets (codeBrackets j.options.probe x.2.2) q.frames = none := by
      have hfollows := j.follows_layCodeTag x.2.2 (endsBlank x.1) q
      rw [hstop] at hfollows
      exact hfollows.1.resolve_left id
    obtain rfl := stop_of_layCodeTag hstop
    have hsplit := append_of_split hfound
    rw [hbrackets] at hrun
    rw [List.nil_append] at hbefore
    refine ⟨joinMarkers earlier b, j.table.restore x.2.2 ++
      j.table.restore (joinMarkers later (markers.split s).2),
      ⟨_, hsplit⟩, ?_, ?_, ?_⟩
    · rw [hposition, hbefore]
    · rw [htable] at hcode ⊢
      rw [← restore_append_marker hcode, hsplit]
      rfl
    · exact .code hbad hfound hcode hrun hfails

/-- A layout of a token stops where the construct that blocks it begins. -/
theorem stopsIn_layToken {body : Text} (htable : j.table = (extractCode body).2) {t : Token}
    (hfits : t.lexeme.Fits t.lexeme.written) {following : List Token}
    (h : j.layToken t following p = .error stop) :
    ∃ skipped rest, j.StopsIn p.frames t.lexeme t.offset stop skipped rest := by
  obtain ⟨offset, afterBlank, lexeme⟩ := t
  unfold layToken at h
  cases lexeme with
  | raw s => simp at h
  | unrecognized s => exact hfits.elim
  | text s => exact stopsIn_layTextToken (p := { p with position := offset }) htable h
  | tag tag =>
    have hread := tag?_eq_some_isRead (hfits [])
    cases tag with
    | opening name attributes gap ending =>
      -- the name of a tag that was read is a tag name
      simp [layOpening, hread.1] at h
    | closing lead name trail =>
      have hpop := bind_ok_eq_error h
      have hfails : runBrackets [.closeTag name] p.frames = none := by
        have hfollows := follows_pop_tag { p with position := offset } name
          ('<' :: '/' :: (name ++ ['>']))
        rw [hpop] at hfollows
        exact hfollows.1.resolve_left id
      obtain rfl := Page.stop_of_pop hpop
      refine ⟨[], '<' :: '/' :: j.table.restore (lead ++ name ++ trail ++ ['>']), List.nil_prefix,
        ?_, ?_, ?_⟩
      · simp
      · rw [restore_nil, List.nil_append]
        exact restore_apart j.table (u := ['<', '/']) (by simp; decide)
          (lead ++ name ++ trail ++ ['>'])
      · exact .closing hfails

/-- A layout of tokens stops at one of them, once those before it are laid out. -/
theorem exists_of_layTokens_eq_error {ts : List Token}
    (hfits : ∀ t ∈ ts, t.lexeme.Fits t.lexeme.written) (h : j.layTokens ts p = .error stop) :
    ∃ before t after q, ts = before ++ t :: after ∧ (∀ u ∈ before, ¬ u.lexeme.IsBad) ∧
      runBrackets (bracketWord j.options.probe j.table before) p.frames = some q.frames ∧
      j.layToken t after q = .error stop := by
  induction ts generalizing p with
  | nil => simp [layTokens] at h
  | cons t ts ih =>
    have hfollows := j.follows_layToken (hfits t List.mem_cons_self) ts p
    unfold layTokens at h
    cases hlay : j.layToken t ts p with
    | error s =>
      rw [hlay] at h
      exact ⟨[], t, ts, p, rfl, by simp, rfl, hlay.trans h⟩
    | ok q =>
      rw [hlay] at h hfollows
      obtain ⟨hgood, hframes⟩ := hfollows
      obtain ⟨before, u, after, q', rfl, hbefore, hrun, hstop⟩ :=
        ih (fun u hu => hfits u (List.mem_cons_of_mem t hu)) h
      refine ⟨t :: before, u, after, q', rfl, ?_, ?_, hstop⟩
      · intro v hv
        rcases List.mem_cons.mp hv with rfl | hv
        · exact hgood
        · exact hbefore v hv
      · rw [bracketWord, List.flatMap_cons, runBrackets_append, hframes]
        exact hrun

end Job

end Stops

section Tokens

theorem offset_of_place {ls : List Lexeme} {n : Nat} {blank : Bool} {before after : List Token}
    {t : Token} (h : place n blank ls = before ++ t :: after) :
    t.offset = n + byteSize (before.flatMap fun u => u.lexeme.written) := by
  induction before generalizing ls n blank with
  | nil =>
    cases ls with
    | nil => simp [place] at h
    | cons l ls =>
      obtain ⟨rfl, -⟩ := List.cons.inj h
      simp
  | cons u before ih =>
    cases ls with
    | nil => simp [place] at h
    | cons l ls =>
      obtain ⟨rfl, hrest⟩ := List.cons.inj h
      have hoffset := ih hrest
      simp only [List.flatMap_cons, byteSize_append]
      omega

/-- Before a lexeme that is no tag a tag ends. -/
theorem endsApart_before {before after : List Lexeme} {l : Lexeme}
    (hchain : (before ++ l :: after).IsChain fun l l' => l.IsTag ∨ l'.IsTag) (hl : ¬ l.IsTag) :
    EndsApart (before.flatMap Lexeme.written) := by
  rcases List.eq_nil_or_concat before with rfl | ⟨before, last, rfl⟩
  · exact endsApart_nil
  · have hchain : (before ++ last :: l :: after).IsChain fun l l' => l.IsTag ∨ l'.IsTag := by
      simpa using hchain
    have hlast : last.IsTag := (List.isChain_append_cons_cons.mp hchain).2.1.resolve_right hl
    rw [List.concat_eq_append, List.flatMap_append, List.flatMap_singleton]
    exact hlast.isEnclosed.endsApart_append _

/-- The source is cut wherever a lexeme of the body is. -/
theorem restore_append_start (table : MarkerTable) {before after : List Lexeme} {l : Lexeme}
    (hchain : (before ++ l :: after).IsChain fun l l' => l.IsTag ∨ l'.IsTag) {skipped : Text}
    (hskipped : skipped <+: l.written) :
    table.restore (before.flatMap Lexeme.written ++ skipped) =
      table.restore (before.flatMap Lexeme.written) ++ table.restore skipped := by
  by_cases hl : l.IsTag
  · obtain ⟨u, hu⟩ := hl.isEnclosed
    have hstart : StartsApart skipped := by
      intro c hc
      obtain ⟨v, hv⟩ := hskipped
      obtain ⟨skipped, rfl⟩ := List.head?_eq_some_iff.mp hc
      obtain ⟨rfl, -⟩ := List.cons.inj (hv.trans hu)
      decide
    exact (isParted_restore table).append_of_startsApart _ hstart
  · exact (isParted_restore table).append_of_endsApart (endsApart_before hchain hl) skipped

theorem sourceOf_eq (table : MarkerTable) {ts : List Token}
    (hchain : (ts.map Token.lexeme).IsChain fun l l' => l.IsTag ∨ l'.IsTag) :
    sourceOf table ts = table.restore ((ts.map Token.lexeme).flatMap Lexeme.written) := by
  rw [view_flatMap_written (isParted_restore table) hchain, List.flatMap_map]
  rfl

theorem sourceOf_append (table : MarkerTable) (ts us : List Token) :
    sourceOf table (ts ++ us) = sourceOf table ts ++ sourceOf table us := List.flatMap_append

theorem sourceOf_cons (table : MarkerTable) (t : Token) (ts : List Token) :
    sourceOf table (t :: ts) = table.restore t.lexeme.written ++ sourceOf table ts :=
      List.flatMap_cons

/-- The source of the tokens of a marked body is the body. -/
theorem sourceOf_tokens (body : Text) :
    sourceOf (extractCode body).2 (tokens (extractCode body).1) = body := by
  have hchain : ((tokens (extractCode body).1).map Token.lexeme).IsChain fun l l' => l.IsTag ∨
      l'.IsTag := by
    rw [map_lexeme_tokens]
    exact isChain_lexemesIn none _
  rw [sourceOf_eq _ hchain, map_lexeme_tokens, lexemes, flatMap_lexemesIn, restore_extractCode]

/-- The layout of a body stops at a position in it, and the source from there on begins with what
stops it. -/
theorem Job.exists_obstacle {j : Job} {body : Text} (htable : j.table = (extractCode body).2)
    {stop : Stop} (h : j.layBody (extractCode body).1 = .error stop) :
    ∃ before rest, before <+: (extractCode body).1 ∧ stop.page.position = byteSize before ∧
      body = j.table.restore before ++ rest ∧
      Obstacle j.options.probe j.table (tokens (extractCode body).1) rest stop.cause := by
  have hfits : ∀ t ∈ tokens (extractCode body).1, t.lexeme.Fits t.lexeme.written :=
    fun t => fits_of_mem_tokens
  rcases j.layBody_cases (extractCode body).1
    with ⟨stop', hlay, hbody⟩ | ⟨p, -, -, hbody⟩ | ⟨p, hlay, hblocks, hbody⟩
  · obtain rfl := Except.error.inj (h.symm.trans hbody)
    obtain ⟨us, t, vs, q, hts, hgood, hrun, hstop⟩ := exists_of_layTokens_eq_error hfits hlay
    obtain ⟨skipped, rest, hin⟩ := stopsIn_layToken htable (hfits t (by simp [hts])) hstop
    have hlexemes : lexemes (extractCode body).1 = us.map Token.lexeme ++ t.lexeme ::
        vs.map Token.lexeme := by
      rw [← map_lexeme_tokens, hts, List.map_append, List.map_cons]
    have hchain := isChain_lexemesIn none (extractCode body).1
    change (lexemes (extractCode body).1).IsChain _ at hchain
    rw [hlexemes] at hchain
    refine ⟨(us.map Token.lexeme).flatMap Lexeme.written ++ skipped, rest ++ sourceOf j.table vs,
      ?_, ?_, ?_, .token hts ⟨hgood, hrun⟩ hin.blocks⟩
    · have hwhole := flatMap_lexemesIn none (extractCode body).1
      change (lexemes (extractCode body).1).flatMap Lexeme.written = _ at hwhole
      rw [← hwhole, hlexemes, List.flatMap_append, List.flatMap_cons]
      exact (List.prefix_append_right_inj _).mpr (hin.isPrefix.trans (List.prefix_append _ _))
    · rw [hin.position, offset_of_place hts, byteSize_append, List.flatMap_map]
      omega
    · have hbefore : (us.map Token.lexeme).IsChain fun l l' => l.IsTag ∨ l'.IsTag :=
        hchain.left_of_append
      rw [restore_append_start j.table hchain hin.isPrefix, ← sourceOf_eq j.table hbefore]
      conv_lhs => rw [← sourceOf_tokens body, ← htable, hts, sourceOf_append, sourceOf_cons,
        hin.source]
      simp
  · simp [hbody] at h
  · -- all tokens are laid out
    obtain rfl := Except.error.inj (h.symm.trans hbody)
    have hfollows := j.follows_layTokens hfits Page.blank
    rw [hlay] at hfollows
    obtain ⟨hgood, hframes⟩ := hfollows
    refine ⟨(extractCode body).1, [], List.prefix_rfl, rfl, ?_, .atEnd ⟨?_, hframes⟩ ?_⟩
    · rw [htable, restore_extractCode, List.append_nil]
    · intro t ht hbad
      exact hgood ⟨t, ht, hbad⟩
    · simpa [Page.frames] using hblocks

end Tokens

/-- The line of a failure is that of the construct that stops the layout: it is one more than the
line feeds of the source before the construct, the front matter among them. -/
theorem exists_obstacle_of_formatDocument (options : Options) (source : Text) (failure : Failure)
    (h : formatDocument options source = .error failure) :
    ∃ before rest, source = before ++ rest ∧ failure.line = 1 + before.count '\n' ∧
      (splitFrontMatter source).1.getD [] <+: before ∧
      Obstacle options.probe (markedBody source).2 (tokens (markedBody source).1) rest
        failure.cause := by
  rw [formatDocument_eq] at h
  split at h
  · simp at h
  next stop hstop =>
    obtain rfl := Except.error.inj h
    obtain ⟨before, rest, hbefore, hposition, hbody, hobstacle⟩ := Job.exists_obstacle rfl hstop
    refine ⟨(splitFrontMatter source).1.getD [] ++ (markedBody source).2.restore before,
      rest, ?_, ?_, List.prefix_append _ _, hobstacle⟩
    · conv_lhs => rw [← splitFrontMatter_append source, hbody]
      rw [List.append_assoc, markedBody]
    · have htake : takeBytes stop.page.position (markedBody source).1 = before := by
        obtain ⟨after, hafter⟩ := hbefore
        rw [hposition]
        unfold markedBody
        rw [← hafter, takeBytes_append]
      rw [Job.failureAt, htake, List.count_append]
      dsimp only
      omega

/-- A code tag of two lines and text that looks like a marker stand between the front matter and a
stray end. -/
theorem exists_obstacle_of_formatDocument_strayEnd :
    ∃ source failure, source =
      "---\na: b\n---\n<p>\n<%= x(\n  1) %> erb1tag\n<% end %>\n</p>\n".toList ∧
      formatDocument {} source = .error failure ∧ failure.line = 7 ∧
      ∃ before rest, source = before ++ rest ∧ failure.line = 1 + before.count '\n' ∧
        (splitFrontMatter source).1.getD [] <+: before ∧
        Obstacle leavesOpen (markedBody source).2 (tokens (markedBody source).1) rest
          failure.cause := by
  have hfails :
      formatDocument {}
        "---\na: b\n---\n<p>\n<%= x(\n  1) %> erb1tag\n<% end %>\n</p>\n".toList =
      .error ⟨.unmatched (some "<% end %>".toList) ["p".toList], "(erb)".toList, 7,
        some "p".toList⟩ := by
    decide +kernel
  exact ⟨_, _, rfl, hfails, rfl, exists_obstacle_of_formatDocument _ _ _ hfails⟩

end ErbLayout
