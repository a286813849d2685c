import ErbLayout.Proofs.Code.Kind
import ErbLayout.Proofs.OpenBlocks

/-!
Code that closes a code block and opens the next one, as the branches of a condition do. The layout
of a document goes through each code tag of its texts: up to the tag, the tag itself, and the rest.
A tag with a keyword that reopens a block pops the innermost block, which must be a code block, is
put out at the depth of the tag that opened that block, and pushes a block of its own. A line feed
after the keyword makes it a tag of another kind.
-/

namespace ErbLayout

open Text Markup Code Layout

section Pieces

namespace Job

/-- The pieces of a text up to a code tag, the code tag, and the pieces after it. -/
theorem codePieces_append {table : MarkerTable} {digits written : Text}
    (hcode : table.code? digits = some written) (start lead : Text)
    (earlier later : List (Text × Text)) (tail : Text) :
    codePieces table start (earlier ++ (lead, digits) :: later) tail =
      ((codePieces table start earlier lead).1 ++
        ((codePieces table start earlier lead).2, markers.written digits, written) ::
          (codePieces table [] later tail).1, (codePieces table [] later tail).2) := by
  induction earlier generalizing start with
  | nil => simp [codePieces, hcode]
  | cons x earlier ih =>
    obtain ⟨b, d⟩ := x
    cases hd : table.code? d with
    | none => simp only [List.cons_append, codePieces, hd, ih]
    | some code => simp [codePieces, hd, ih]

theorem layPieces_append (j : Job) (offset : Nat) (xs ys : List (Text × Text × Text)) (p : Page) :
    j.layPieces offset (xs ++ ys) p =
      j.layPieces offset xs p >>=
        j.layPieces (offset + byteSize (xs.flatMap fun x => x.1 ++ x.2.1)) ys := by
  induction xs generalizing offset p with
  | nil => rfl
  | cons x xs ih =>
    obtain ⟨b, marker, code⟩ := x
    simp only [List.cons_append, layPieces]
    cases j.layCodeTag code (endsBlank b)
        { j.layText b 0 p with position := offset + byteSize b } with
    | error stop => rfl
    | ok q =>
      have hrest := ih (offset + byteSize b + byteSize marker) q
      simp only [List.flatMap_cons, byteSize_append, Nat.add_assoc] at hrest ⊢
      exact hrest

end Job

end Pieces

/-- A code tag at its place in a text among tokens. -/
structure CodePlace (j : Job) (ts : List Token) where
  before : List Token
  token : Token
  after : List Token
  text : Text
  /-- The markers of the text before that of the code tag, each with what stands before it. -/
  earlier : List (Text × Text)
  lead : Text
  digits : Text
  later : List (Text × Text)
  written : Text
  tag : CodeTag
  tokens_eq : ts = before ++ token :: after
  lexeme_eq : token.lexeme = .text text
  split_eq : (markers.split text).1 = earlier ++ (lead, digits) :: later
  code_eq : j.table.code? digits = some written
  tag_eq : CodeTag.ofText? written = some tag

namespace CodePlace

variable {j : Job} {ts : List Token} (c : CodePlace j ts)

def pieces : List (Text × Text × Text) × Text := Job.codePieces j.table [] c.earlier c.lead

def newLine : Bool := endsBlank c.pieces.2

def position : Nat := c.token.offset + byteSize (joinMarkers c.earlier c.lead)

def page : Except Stop Page := do
  let p ← j.layBefore (c.token :: c.after) c.before Page.blank
  let p := { p with position := c.token.offset }
  if badAttributes.occursIn c.text then .error ⟨.badAttribute (j.table.restore (trim c.text)), p⟩
  else do
    let p ← j.layPieces c.token.offset c.pieces.1 p
    .ok { j.layText c.pieces.2 0 p with position := c.position }

def rest (p : Page) : Except Stop Page := do
  let pieces := Job.codePieces j.table [] c.later (markers.split c.text).2
  let p ← j.layPieces (c.position + byteSize (markers.written c.digits)) pieces.1 p
  j.layTokens c.after (j.layText pieces.2 (Job.gluedWidth c.after) p)

theorem position_eq :
    c.token.offset + byteSize (c.pieces.1.flatMap fun x => x.1 ++ x.2.1) + byteSize c.pieces.2 =
      c.position := by
  have hbefore := congrArg byteSize (flatMap_codePieces_written j.table [] c.earlier c.lead)
  rw [byteSize_append, List.nil_append] at hbefore
  rw [position, joinMarkers, ← hbefore, pieces]
  omega

/-- A text is laid out up to one of its code tags, then the code tag, then the rest. -/
theorem layTextToken_eq (hgood : ¬ badAttributes.occursIn c.text) (tail : Nat) (p : Page) :
    j.layTextToken c.token.offset c.text tail p = (do
      let p ← j.layPieces c.token.offset c.pieces.1 p
      let p ← j.layCodeTag c.written c.newLine
        { j.layText c.pieces.2 0 p with position := c.position }
      let pieces := Job.codePieces j.table [] c.later (markers.split c.text).2
      let p ← j.layPieces (c.position + byteSize (markers.written c.digits)) pieces.1 p
      .ok (j.layText pieces.2 tail p)) := by
  unfold Job.layTextToken
  rw [if_neg hgood]
  dsimp only
  rw [c.split_eq, Job.codePieces_append c.code_eq, Job.layPieces_append]
  change ((j.layPieces c.token.offset c.pieces.1 p >>= _) >>= _) = _
  cases j.layPieces c.token.offset c.pieces.1 p with
  | error stop => rfl
  | ok q =>
    change (j.layPieces (c.token.offset + byteSize (c.pieces.1.flatMap fun x => x.1 ++ x.2.1))
      ((c.pieces.2, markers.written c.digits, c.written) :: _) q >>= _) = _
    rw [Job.layPieces, c.position_eq]
    change ((j.layCodeTag c.written c.newLine _ >>= _) >>= _) =
      (j.layCodeTag c.written c.newLine _ >>= _)
    cases j.layCodeTag c.written c.newLine
        { j.layText c.pieces.2 0 q with position := c.position } with
    | error stop => rfl
    | ok r => rfl

/-- The layout of the tokens is that up to the code tag, that of the code tag, and that of the
rest. -/
theorem layTokens_eq :
    j.layTokens ts Page.blank =
      c.page >>= fun p => j.layCodeTag c.written c.newLine p >>= c.rest := by
  have hts : j.layTokens ts Page.blank =
      j.layBefore (c.token :: c.after) c.before Page.blank >>= fun p =>
        j.layTextToken c.token.offset c.text (Job.gluedWidth c.after)
          { p with position := c.token.offset } >>= j.layTokens c.after := by
    conv_lhs => rw [c.tokens_eq, Job.layTokens_append]
    congr 1
    funext p
    rw [Job.layTokens, Job.layToken, c.lexeme_eq]
  rw [hts, page]
  cases j.layBefore (c.token :: c.after) c.before Page.blank with
  | error stop => rfl
  | ok p =>
    by_cases hbad : badAttributes.occursIn c.text
    · change (j.layTextToken _ _ _ _ >>= _) = ((if _ then _ else _) >>= _)
      rw [Job.layTextToken, if_pos hbad, if_pos hbad]
      rfl
    · change (j.layTextToken _ _ _ _ >>= _) = ((if _ then _ else _) >>= _)
      rw [if_neg hbad, c.layTextToken_eq hbad]
      simp only [bind_assoc]
      rfl

theorem moves_page : Page.blank.Moves (fun _ => True) (lastPage c.page) := by
  refine .bind (.mono (Job.moves_layBefore _ c.before Page.blank) fun _ _ => trivial) fun p _ => ?_
  have hkeeps := Page.Keeps.position p c.token.offset
  dsimp only
  split
  · exact .keeps hkeeps
  · refine .bind (.trans (.keeps hkeeps)
      (.mono (Job.moves_layPieces c.pieces.1 _ _) fun _ _ => trivial)) fun q _ => ?_
    exact .keeps ((Page.Keeps.layText j c.pieces.2 0 q).trans (.position _ c.position))

/-- On the page the events tell where the open blocks were opened. -/
theorem opened_page {p : Page} (h : c.page = .ok p) : Opened p.blocks p.events := by
  have hmoves := c.moves_page
  rw [h] at hmoves
  exact hmoves.opened (.nil isBalanced_nil)

theorem moves_rest (p : Page) : p.Moves (fun _ => True) (lastPage (c.rest p)) := by
  refine .bind (.mono (Job.moves_layPieces _ _ p) fun _ _ => trivial) fun q _ => ?_
  exact .trans (.keeps (.layText j _ _ q))
    (.mono (Job.moves_layTokens c.after _) fun _ _ => trivial)

end CodePlace

section Reopening

/-- The events show where the innermost code block was opened: a tag with its code is put out at the
depth, the block is pushed, and all that is pushed after it is popped. -/
def ShowOpener (label : Text) (depth : Nat) (events : List Event) : Prop :=
  ∃ (opener : CodeTag) (code : Text) (newLine : Bool) (es fs : List Event), opener.code = label ∧
    events = es ++ .append (placed newLine depth (opener.render code)) depth ::
    .push label (depth + 1) :: fs ∧
    IsBalanced fs

/-- From one page to the next a code block is closed and another one opened. Between the two the tag
is put out, at the depth at which the tag that opened the closed block was. -/
structure Page.Reopens (p : Page) (tag : CodeTag) (newLine : Bool) (q : Page) (label : Text)
    (outer : BlockStack) :
    Prop where
  before : p.blocks = .code label :: outer
  after : q.blocks = .code tag.code :: outer
  output : q.output = p.output ++ placed newLine outer.length (tag.render tag.code)
  events : q.events = p.events ++ [.pop label outer.length,
    .append (placed newLine outer.length (tag.render tag.code)) outer.length,
    .push tag.code (outer.length + 1)]
  opener : ShowOpener label outer.length p.events

theorem Opened.showOpener {label : Text} {outer : BlockStack} {events : List Event}
    (h : Opened (.code label :: outer) events) : ShowOpener label outer.length events := by
  cases h with
  | @cons _ _ s es fs newLine _ hshown hbalanced =>
    obtain ⟨opener, code, hopener, rfl⟩ := hshown
    exact ⟨opener, code, newLine, es, fs, hopener, rfl, hbalanced⟩

/-- A tag that reopens a block does so on a page with a code block innermost, and stops the layout
on any other. -/
theorem Job.reopens_layCodeTag {j : Job} {written : Text} {tag : CodeTag} {p : Page}
    (htag : CodeTag.ofText? written = some tag)
    (hkind : Kind.of j.options.probe tag.code = .reopener) (hopened : Opened p.blocks p.events)
    (newLine : Bool) :
    (∃ q label outer, j.layCodeTag written newLine p = .ok q ∧
      p.Reopens tag newLine q label outer) ∨
      (∀ label outer, p.blocks ≠ .code label :: outer) ∧ j.layCodeTag written newLine p =
        .error ⟨.unmatched (some (j.table.restore written))
          (p.blocks.head?.toList.map Block.label), p⟩ := by
  have hlay : j.layCodeTag written newLine p = p.pop .code (j.table.restore written) >>= fun r =>
      .ok ((r.emit (tag.render tag.code) newLine).push (.code tag.code)) := by
    simp only [layCodeTag, htag, hkind]
  cases hpop : p.pop .code (j.table.restore written) with
  | ok r =>
    obtain ⟨top, hblocks, hclosed, hevents⟩ := Page.exists_of_pop_eq_ok hpop
    cases top with
    | element name tag => simp [Block.isClosedBy] at hclosed
    | code label =>
      rw [hblocks] at hopened
      refine Or.inl ⟨(r.emit (tag.render tag.code) newLine).push (.code tag.code), label, r.blocks,
        ?_, hblocks, ?_, ?_, ?_, hopened.showOpener⟩
      · rw [hlay, hpop]
        rfl
      · exact Page.blocks_push_emit r _ newLine _
      · change (r.emit (tag.render tag.code) newLine).output = _
        rw [Page.output_emit, Page.output_pop hpop]
        rfl
      · rw [Page.events_push_emit, hevents, List.append_assoc]
        rfl
  | error stop =>
    obtain rfl := Page.stop_of_pop hpop
    refine Or.inr ⟨?_, by rw [hlay, hpop]; rfl⟩
    intro label outer hblocks
    simp [Page.pop, hblocks, BlockStack.pop, Block.isClosedBy] at hpop

/-- The events of a run are those of the layout of the tokens, to its end or to where it stops. -/
theorem events_runDocument (options : Options) (source : Text) :
    (runDocument options source).events =
      (lastPage ((⟨options, (markedBody source).2⟩ : Job).layTokens
        (tokens (markedBody source).1) Page.blank)).events := by
  have hevents : (runDocument options source).events =
      (lastPage ((⟨options, (markedBody source).2⟩ : Job).layBody
        (markedBody source).1)).events := by
    unfold runDocument markedBody
    dsimp only
    cases (⟨options, (extractCode (splitFrontMatter source).2).2⟩ : Job).layBody
        (extractCode (splitFrontMatter source).2).1 with
    | ok page => rfl
    | error stop => rfl
  rw [hevents]
  rcases Job.layBody_cases ⟨options, (markedBody source).2⟩ (markedBody source).1 with
    ⟨stop, hlay, hbody⟩ | ⟨p, hlay, -, hbody⟩ | ⟨p, hlay, -, hbody⟩
  all_goals simp only [hlay, hbody, lastPage]

/-- A document fails with the cause that stops the layout of its tokens. -/
theorem exists_failure_of_layTokens {options : Options} {source : Text} {stop : Stop}
    (h : Job.layTokens ⟨options, (markedBody source).2⟩ (tokens (markedBody source).1) Page.blank =
      .error stop) :
    ∃ failure, formatDocument options source = .error failure ∧ failure.cause = stop.cause := by
  rcases Job.layBody_cases ⟨options, (markedBody source).2⟩ (markedBody source).1 with
    ⟨stop', hlay, hbody⟩ | ⟨p, hlay, -, -⟩ | ⟨p, hlay, -, -⟩
  · obtain rfl := Except.error.inj (h.symm.trans hlay)
    rw [formatDocument_eq, hbody]
    exact ⟨_, rfl, rfl⟩
  · simp [hlay] at h
  · simp [hlay] at h

end Reopening

/-- A keyword that reopens a block does so unless a line feed follows it. Each code tag with such
code is reached when the document is laid out, and whenever it is reached it closes the code block
that is innermost and opens another one, at the depth of the tag that opened the first; only where
no code block is innermost it stops the layout. -/
theorem reopens_of_reopenerKeyword (code : Text)
    (hkeyword : (leadingKeyword? reopenerKeywords code).isSome) :
    (∀ probe, Kind.of probe code =
      if '\n' ∉ code then .reopener else if probe code then .opener else .expression) ∧
      ∀ (options : Options) (source : Text)
        (c : CodePlace ⟨options, (markedBody source).2⟩ (tokens (markedBody source).1)),
        c.tag.code = code → '\n' ∉ code →
        ((∃ output, formatDocument options source = .ok output) → ∃ p, c.page = .ok p) ∧
          ∀ p, c.page = .ok p →
            (∃ q label outer, Job.layCodeTag ⟨options, (markedBody source).2⟩ c.written c.newLine
              p = .ok q ∧
              p.Reopens c.tag c.newLine q label outer ∧
                q.events <+: (runDocument options source).events) ∨
            (∀ label outer, p.blocks ≠ .code label :: outer) ∧ ∃ failure,
              formatDocument options source = .error failure ∧ failure.cause =
                .unmatched (some ((markedBody source).2.restore c.written))
                  (p.blocks.head?.toList.map Block.label) := by
  refine ⟨kind_of_reopenerKeyword hkeyword, ?_⟩
  intro options source c hcode hline
  have hkind : Kind.of options.probe c.tag.code = .reopener := by
    rw [hcode, kind_of_reopenerKeyword hkeyword, if_pos hline]
  refine ⟨?_, ?_⟩
  · rintro ⟨output, hok⟩
    cases hpage : c.page with
    | ok p => exact ⟨p, rfl⟩
    | error stop =>
      have hstop := c.layTokens_eq
      rw [hpage] at hstop
      obtain ⟨failure, hfails, -⟩ := exists_failure_of_layTokens hstop
      simp [hok] at hfails
  · intro p hpage
    have hlay : Job.layTokens ⟨options, (markedBody source).2⟩
      (tokens (markedBody source).1) Page.blank =
        Job.layCodeTag ⟨options, (markedBody source).2⟩ c.written c.newLine p >>= c.rest := by
      rw [c.layTokens_eq, hpage]
      rfl
    rcases Job.reopens_layCodeTag (j := ⟨options, _⟩) c.tag_eq hkind (c.opened_page hpage)
        c.newLine with
      ⟨q, label, outer, hq, hreopens⟩ | ⟨hblocks, hstop⟩
    · refine Or.inl ⟨q, label, outer, hq, hreopens, ?_⟩
      rw [events_runDocument, hlay, hq]
      exact (c.moves_rest q).isPrefix
    · rw [hstop] at hlay
      exact Or.inr ⟨hblocks, exists_failure_of_layTokens hlay⟩

/-- The second branch of a condition. -/
theorem reopens_of_reopenerKeyword_branch :
    ∃ source, source = "<% if a %>\nx\n<% elsif b %>\ny\n<% end %>\n".toList ∧
      ∃ (c : CodePlace ⟨{}, (markedBody source).2⟩ (tokens (markedBody source).1)) (p q : Page)
        (label : Text) (outer : BlockStack), c.tag.code = "elsif b".toList ∧ c.page = .ok p ∧
          p.Reopens c.tag c.newLine q label outer ∧
            q.events <+: (runDocument {} source).events := by
  have hok : formatDocument {} "<% if a %>\nx\n<% elsif b %>\ny\n<% end %>\n".toList =
      .ok "<% if a %>\n  x\n<% elsif b %>\n  y\n<% end %>\n".toList := by
    decide +kernel
  have hkeyword : (leadingKeyword? reopenerKeywords "elsif b".toList).isSome := by decide
  obtain ⟨-, hplaces⟩ := reopens_of_reopenerKeyword "elsif b".toList hkeyword
  refine ⟨_, rfl, ?_⟩
  generalize hsource : "<% if a %>\nx\n<% elsif b %>\ny\n<% end %>\n".toList = source at hok
  let c : CodePlace ⟨{}, (markedBody source).2⟩ (tokens (markedBody source).1) :=
    { before := []
      token := ⟨0, false, .text "erb0tag\nx\nerb1tag\ny\nerb2tag\n".toList⟩
      after := []
      text := "erb0tag\nx\nerb1tag\ny\nerb2tag\n".toList
      earlier := [([], ['0'])]
      lead := ['\n', 'x', '\n']
      digits := ['1']
      later := [(['\n', 'y', '\n'], ['2'])]
      written := "<% elsif b %>".toList
      tag := ⟨['<', '%'], [' '], "elsif b".toList, [' '], ['%', '>']⟩
      tokens_eq := by
        subst hsource
        decide +kernel
      lexeme_eq := rfl
      split_eq := by decide +kernel
      code_eq := by
        subst hsource
        decide +kernel
      tag_eq := by decide +kernel }
  obtain ⟨hcomes, hreopens⟩ := hplaces {} source c rfl (by decide)
  obtain ⟨p, hpage⟩ := hcomes ⟨_, hok⟩
  rcases hreopens p hpage with ⟨q, label, outer, -, hq, hevents⟩ | ⟨-, failure, hfails, -⟩
  · exact ⟨c, p, q, label, outer, rfl, hpage, hq, hevents⟩
  · exact absurd (hok.symm.trans hfails) (by simp)

/-- A condition over two lines is no branch of its own: it stands one level too deep, with what
follows it. -/
theorem kind_of_reopenerKeyword_lines :
    (leadingKeyword? reopenerKeywords "elsif a &&\n  b".toList).isSome ∧
      Kind.of leavesOpen "elsif a &&\n  b".toList = .expression ∧
      formatDocument {} "<% if c %>\nx\n<% elsif a &&\n  b %>\ny\n<% end %>\n".toList =
        .ok "<% if c %>\n  x\n  <% elsif a &&\n  b %>\n  y\n<% end %>\n".toList := by
  refine ⟨by decide, by decide, by decide +kernel⟩

end ErbLayout
