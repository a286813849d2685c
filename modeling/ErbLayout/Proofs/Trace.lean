import ErbLayout.Proofs.Adjacency
import ErbLayout.Proofs.Layout.Lines
import Mathlib.Logic.Relation

/-!
The events of a layout. Blocks are pushed and popped in a nested way, each depth that is told is the
number of blocks that are pushed and not popped, and output that begins a new line is indented to
that depth. A step of a layout adds at most one event, and the event says what becomes of the open
blocks; what holds of the events of a whole layout is what each step keeps. Raw content is put out
as it stands, so it is the one output that need not be indented.
-/

namespace ErbLayout

open Text Markup Code Layout

section Events

/-- The labels that are pushed and not popped after an event, the latest first; there are none to
tell when the event pops another label than the latest. -/
def Event.track : Event → List Text → Option (List Text)
  | .push label _, labels => some (label :: labels)
  | .pop label _, latest :: labels => if latest = label then some labels else none
  | .pop _ _, [] => none
  | _, labels => some labels

def trackEvents : List Event → List Text → Option (List Text)
  | [], labels => some labels
  | e :: es, labels => (e.track labels).bind (trackEvents es)

def Event.isPush : Event → Bool
  | .push _ _ => true
  | _ => false

def Event.isPop : Event → Bool
  | .pop _ _ => true
  | _ => false

def pushes (events : List Event) : Nat := events.countP Event.isPush

def pops (events : List Event) : Nat := events.countP Event.isPop

def Event.depth? : Event → Option Nat
  | .push _ depth | .pop _ depth | .append _ depth => some depth
  | _ => none

/-- Each depth that is told is the number of pushes less that of pops, up to its event. -/
def HasDepths (events : List Event) : Prop :=
  ∀ before e after, events = before ++ e :: after →
    ∀ depth ∈ e.depth?, depth + pops (before ++ [e]) = pushes (before ++ [e])

def Event.IsIndented : Event → Prop
  | .append output depth => ∀ line, output = '\n' :: line →
      ∃ c rest, line = List.replicate (2 * depth) ' ' ++ c :: rest ∧ isBlank c = false
  | _ => True

theorem trackEvents_append (es fs : List Event) (labels : List Text) :
    trackEvents (es ++ fs) labels = (trackEvents es labels).bind (trackEvents fs) := by
  induction es generalizing labels with
  | nil => rfl
  | cons e es ih =>
    simp only [List.cons_append, trackEvents, Option.bind_assoc]
    congr 1
    funext labels'
    exact ih labels'

/-- An event changes the number of labels as it is counted. -/
theorem Event.length_track {e : Event} {labels labels' : List Text}
    (h : e.track labels = some labels') :
    labels'.length + pops [e] = labels.length + pushes [e] := by
  cases e with
  | pop label depth =>
    cases labels with
    | nil => simp [Event.track] at h
    | cons latest labels =>
      obtain ⟨-, rfl⟩ : latest = label ∧ labels = labels' := by simpa [Event.track] using h
      rfl
  | _ =>
    obtain rfl := Option.some.inj h
    rfl

theorem length_trackEvents {events : List Event} {labels labels' : List Text}
    (h : trackEvents events labels = some labels') :
    labels'.length + pops events = labels.length + pushes events := by
  induction events generalizing labels with
  | nil =>
    obtain rfl := Option.some.inj h
    rfl
  | cons e events ih =>
    obtain ⟨middle, he, hrest⟩ := Option.bind_eq_some_iff.mp h
    have hfirst := e.length_track he
    have hlater := ih hrest
    have hpops : pops (e :: events) = pops [e] + pops events := @List.countP_append _ _ [e] events
    have hpushes : pushes (e :: events) = pushes [e] + pushes events :=
      @List.countP_append _ _ [e] events
    omega

theorem HasDepths.concat {events : List Event} {e : Event} (h : HasDepths events)
    (he : ∀ depth ∈ e.depth?, depth + pops (events ++ [e]) = pushes (events ++ [e])) :
    HasDepths (events ++ [e]) := by
  intro before e' after hsplit
  rcases List.eq_nil_or_concat after with rfl | ⟨after, last, rfl⟩
  · obtain ⟨rfl, hlast⟩ := List.append_inj' hsplit rfl
    obtain rfl : e = e' := by simpa using hlast
    exact he
  · -- the event stands among those before the last
    have hinit : events ++ [e] = (before ++ e' :: after) ++ [last] := by simpa using hsplit
    obtain ⟨hevents, -⟩ := List.append_inj' hinit rfl
    exact h before e' after hevents

end Events

section Steps

/-- One step of a layout on a page. -/
inductive Page.Step : Page → Page → Prop
  | move (p : Page) (n : Nat) : Step p { p with position := n }
  | breakLine (p : Page) : Step p { p with output := p.output ++ ['\n'] }
  | note (p : Page) {e : Event} : (∀ labels, e.track labels = some labels) → e.depth? = none →
      Step p (p.note e)
  | emit (p : Page) {s : Text} (newLine : Bool) : IsVisible s → Step p (p.emit s newLine)
  | push (p : Page) (b : Block) : Step p (p.push b)
  | pop {p q : Page} {closer : Closer} {found : Text} : p.pop closer found = .ok q → Step p q

/-- An event is added to those of the page, and tells what becomes of the open blocks. -/
structure Page.Records (p q : Page) (e : Event) : Prop where
  events : q.events = p.events ++ [e]
  labels : e.track (p.blocks.map Block.label) = some (q.blocks.map Block.label)
  depth : ∀ depth ∈ e.depth?, depth = q.depth

theorem Page.records_append (p : Page) (s : Text) : p.Records (p.append s) (.append s p.depth) := by
  cases p
  exact ⟨rfl, rfl, by simp [Event.depth?, Page.append, Page.depth]⟩

theorem isIndented_onNewLine {s : Text} (h : IsVisible s) (depth : Nat) :
    (Event.append (onNewLine depth s) depth).IsIndented := by
  intro line hline
  obtain ⟨c, rest, hs⟩ := List.exists_cons_of_ne_nil h.ne_nil
  refine ⟨c, rest, ?_, ?_⟩
  · obtain ⟨-, rfl⟩ := List.cons.inj hline
    rw [h.trim_eq, hs]
    rfl
  · have hstart := h.starts
    rwa [hs, startsBlank_cons] at hstart

/-- Output that shows something at once begins no new line. -/
theorem isIndented_visible {s : Text} (h : IsVisible s) (depth : Nat) :
    (Event.append s depth).IsIndented := by
  rintro line rfl
  have hstart := h.starts
  rw [startsBlank_cons] at hstart
  exact absurd hstart (by decide)

theorem Page.exists_records_emit (p : Page) {s : Text} (h : IsVisible s) (newLine : Bool) :
    ∃ e, p.Records (p.emit s newLine) e ∧ e.IsIndented := by
  cases newLine with
  | true => exact ⟨_, p.records_append _, isIndented_onNewLine h p.depth⟩
  | false => exact ⟨_, p.records_append _, isIndented_visible h p.depth⟩

theorem Page.exists_records_pop {p q : Page} {closer : Closer} {found : Text}
    (h : p.pop closer found = .ok q) :
    ∃ e, p.Records q e ∧ e.IsIndented := by
  unfold Page.pop at h
  cases hblocks : p.blocks with
  | nil => simp [hblocks, BlockStack.pop] at h
  | cons top rest =>
    by_cases hclosed : top.isClosedBy closer
    · simp only [hblocks, BlockStack.pop, hclosed, if_true] at h
      obtain rfl := Except.ok.inj h
      refine ⟨.pop top.label rest.length, ⟨rfl, ?_, ?_⟩, trivial⟩
      · simp [hblocks, Event.track, Page.note]
      · simp [Event.depth?, Page.depth, Page.note]
    · simp [hblocks, BlockStack.pop, hclosed] at h

/-- All that a step can do to the events: nothing, or add one that tells of the open blocks and is
indented. -/
theorem Page.Step.cases {p q : Page} (h : p.Step q) :
    (q.events = p.events ∧ q.blocks = p.blocks) ∨ ∃ e, p.Records q e ∧ e.IsIndented := by
  cases h with
  | move n => exact Or.inl ⟨rfl, rfl⟩
  | breakLine => exact Or.inl ⟨rfl, rfl⟩
  | @note e htrack hdepth =>
    refine Or.inr ⟨e, ⟨rfl, htrack _, by simp [hdepth]⟩, ?_⟩
    cases e with
    | append output depth => simp [Event.depth?] at hdepth
    | _ => trivial
  | emit newLine hs => exact Or.inr (p.exists_records_emit hs newLine)
  | push b =>
    refine Or.inr ⟨.push b.label (p.depth + 1), ⟨rfl, rfl, ?_⟩, trivial⟩
    simp [Event.depth?, Page.depth, Page.push, Page.note]
  | pop hpop => exact Or.inr (Page.exists_records_pop hpop)

/-- The events of the page are nested, leave its open blocks open, and tell the right depths. -/
structure Page.Traced (p : Page) : Prop where
  nested : trackEvents p.events [] = some (p.blocks.map Block.label)
  depths : HasDepths p.events

theorem Page.Traced.records {p q : Page} {e : Event} (h : p.Traced) (hrecords : p.Records q e) :
    q.Traced := by
  have hnested : trackEvents q.events [] = some (q.blocks.map Block.label) := by
    rw [hrecords.events, trackEvents_append, h.nested]
    simp [trackEvents, hrecords.labels]
  refine ⟨hnested, ?_⟩
  rw [hrecords.events]
  apply h.depths.concat
  intro depth hdepth
  have hlength := length_trackEvents hnested
  rw [hrecords.events, List.length_map] at hlength
  have hdepth := hrecords.depth depth hdepth
  unfold Page.depth at hdepth
  simp only [List.length_nil] at hlength
  omega

def Page.Steps : Page → Page → Prop := Relation.ReflTransGen Page.Step

/-- What any number of steps adds to the events, and what it keeps. -/
theorem Page.Steps.traced {p q : Page} (h : p.Steps q) (hp : p.Traced) :
    q.Traced ∧ ∃ es, q.events = p.events ++ es ∧ ∀ e ∈ es, e.IsIndented := by
  induction h with
  | refl => exact ⟨hp, [], by simp, by simp⟩
  | @tail q q' _ hstep ih =>
    obtain ⟨hq, es, hes, hindented⟩ := ih
    rcases hstep.cases with ⟨hevents, hblocks⟩ | ⟨e, hrecords, he⟩
    · refine ⟨⟨?_, ?_⟩, es, by rw [hevents, hes], hindented⟩
      · rw [hevents, hblocks]
        exact hq.nested
      · rw [hevents]
        exact hq.depths
    · refine ⟨hq.records hrecords, es ++ [e], by rw [hrecords.events, hes, List.append_assoc], ?_⟩
      intro e' he'
      rcases List.mem_append.mp he' with he' | he'
      · exact hindented e' he'
      · obtain rfl := List.mem_singleton.mp he'
        exact he

end Steps

def lastPage : Except Stop Page → Page
  | .ok p => p
  | .error s => s.page

theorem steps_bind {p : Page} {r : Except Stop Page} {next : Page → Except Stop Page}
    (h : p.Steps (lastPage r)) (hnext : ∀ q, r = .ok q → q.Steps (lastPage (next q))) :
    p.Steps (lastPage (r >>= next)) := by
  cases r with
  | ok q => exact h.trans (hnext q rfl)
  | error s => exact h

theorem Page.steps_pop (p : Page) (closer : Closer) (found : Text) :
    p.Steps (lastPage (p.pop closer found)) := by
  cases h : p.pop closer found with
  | ok q => exact .single (.pop h)
  | error s =>
    unfold Page.pop at h
    split at h
    · obtain rfl := Except.error.inj h
      exact .refl
    · simp at h

namespace Job

variable (j : Job)

theorem steps_foldl_emit {lines : List Text} (h : ∀ line ∈ lines, IsVisible line) (p : Page)
    (newLine : Bool) :
    p.Steps (lines.foldl (fun acc line => (acc.1.emit line acc.2, true)) (p, newLine)).1 := by
  induction lines generalizing p newLine with
  | nil => exact .refl
  | cons line lines ih =>
    have hrest := ih (fun l hl => h l (List.mem_cons_of_mem line hl)) (p.emit line newLine) true
    exact hrest.head (.emit p newLine (h line List.mem_cons_self))

theorem steps_layText (s : Text) (tail : Nat) (p : Page) : p.Steps (j.layText s tail p) := by
  unfold layText
  split
  · exact .refl
  · dsimp only [reflow]
    have hnoted : p.Step (p.note (.text s)) := .note p (fun _ => rfl) rfl
    have hvisible := (packed_words j.width (if startsBlank s then j.room p else
      j.options.lineWidth - j.width (lastLine p.output)) (j.room p) tail s).2
    have hlines := (steps_foldl_emit hvisible (p.note (.text s)) (startsBlank s)).head hnoted
    split
    · exact hlines.tail (.breakLine _)
    · exact hlines

theorem steps_noteFormatted (code : Text) (p : Page) : p.Steps (j.noteFormatted code p) :=
  Relation.ReflTransGen.head (.note p (fun _ => rfl) rfl) (.single (.note _ (fun _ => rfl) rfl))

theorem steps_layOpener (code : Text) (p : Page) : p.Steps (j.layOpener code p).2 := by
  unfold layOpener
  split
  · exact .refl
  · exact j.steps_noteFormatted _ p

variable {j}

/-- A code tag is put out between its delimiters, whatever its code becomes. -/
theorem steps_layCodeTag {written : Text} {tag : CodeTag}
    (htag : CodeTag.ofText? written = some tag) (hread : tag.IsRead) (newLine : Bool) (p : Page) :
    p.Steps (lastPage (j.layCodeTag written newLine p)) := by
  have hemit : ∀ (q : Page) (code : Text), q.Step (q.emit (tag.render code) newLine) :=
      fun q code =>
    .emit q newLine (isEnclosed_render hread code).isVisible
  unfold layCodeTag
  rw [htag]
  dsimp only
  cases Kind.of j.options.probe tag.code with
  | comment => exact .single (hemit p _)
  | standalone => exact (j.steps_noteFormatted tag.code p).tail (hemit _ _)
  | expression => exact (j.steps_noteFormatted tag.code p).tail (hemit _ _)
  | opener => exact ((j.steps_layOpener tag.code p).tail (hemit _ _)).tail (.push _ _)
  | closer => exact steps_bind (p.steps_pop .code _) fun q _ => .single (hemit q _)
  | reopener =>
    exact steps_bind (p.steps_pop .code _) fun q _ =>
      Relation.ReflTransGen.tail (.single (hemit q _)) (.push _ _)

theorem steps_layPieces (hcodes : j.ReadsCode) {pieces : List (Text × Text × Text)}
    (hpieces : ∀ x ∈ pieces, ∃ digits, j.table.code? digits = some x.2.2 ∧
      x.2.1 = markers.written digits) (offset : Nat) (p : Page) :
    p.Steps (lastPage (j.layPieces offset pieces p)) := by
  induction pieces generalizing offset p with
  | nil => exact .refl
  | cons x pieces ih =>
    obtain ⟨before, written, code⟩ := x
    obtain ⟨digits, hcode, -⟩ := hpieces _ List.mem_cons_self
    obtain ⟨tag, htag, hread⟩ := hcodes digits code hcode
    have hplaced := (j.steps_layText before 0 p).tail (.move _ (offset + byteSize before))
    unfold layPieces
    refine steps_bind (hplaced.trans (steps_layCodeTag htag hread _ _)) fun q _ => ?_
    exact ih (fun y hy => hpieces y (List.mem_cons_of_mem _ hy)) _ q

theorem steps_layTextToken (hcodes : j.ReadsCode) (offset : Nat) (s : Text) (tail : Nat)
    (p : Page) :
    p.Steps (lastPage (j.layTextToken offset s tail p)) := by
  unfold layTextToken
  split
  · exact .refl
  · exact steps_bind (steps_layPieces hcodes code?_of_mem_codePieces offset p) fun q _ =>
      j.steps_layText _ tail q

theorem steps_layOpening (name attributes : Text) (ending : Ending) (newLine : Bool) (p : Page) :
    p.Steps (lastPage (j.layOpening name attributes ending newLine p)) := by
  unfold layOpening
  split
  · exact .refl
  · dsimp only
    have hvisible :=
      (isEnclosed_opening name (formatAttributes
        ⟨j.options.lineWidth, j.options.singleClassPerLine, j.options.ranking⟩ j.width name
        (trim attributes) ending.written p.depth) ending).isVisible
    have hemit := Page.Step.emit p newLine hvisible
    split
    · exact .single hemit
    · exact Relation.ReflTransGen.tail (.single hemit) (.push _ _)

theorem steps_layClosing (name : Text) (newLine : Bool) (p : Page) :
    p.Steps (lastPage (layClosing name newLine p)) := by
  have hvisible : IsVisible ('<' :: '/' :: (name ++ ['>'])) :=
    IsEnclosed.isVisible ⟨'/' :: name, rfl⟩
  exact steps_bind (p.steps_pop (.tag name) _) fun q _ => .single (.emit q newLine hvisible)

end Job

/-- The events of a lexeme: raw content is put out as it stands, and all else is indented. -/
def Markup.Lexeme.Gives : Lexeme → List Event → Prop
  | .raw s, events => ∃ depth, events = [.append (trimEnd s) depth]
  | _, events => ∀ e ∈ events, e.IsIndented

/-- The events of lexemes one after the other; those of a layout that did not end may break off at
one of them. -/
inductive Yields : List Lexeme → Bool → List Event → Prop
  | nil (ended : Bool) : Yields [] ended []
  | stop {l : Lexeme} (ls : List Lexeme) {es : List Event} : l.Gives es → Yields (l :: ls) false es
  | cons {l : Lexeme} {ls : List Lexeme} {ended : Bool} {es fs : List Event} :
      l.Gives es → Yields ls ended fs → Yields (l :: ls) ended (es ++ fs)

/-- A layout may also stop after its last lexeme. -/
theorem Yields.stopped {ls : List Lexeme} {ended : Bool} {events : List Event}
    (h : Yields ls ended events) :
    Yields ls false events := by
  induction h with
  | nil ended => exact .nil false
  | stop ls hes => exact .stop ls hes
  | cons hes _ ih => exact .cons hes ih

namespace Job

variable {j : Job}

/-- A token keeps the events traced and adds its own. -/
theorem traced_layToken (hcodes : j.ReadsCode) (t : Token) (following : List Token) {p : Page}
    (hp : p.Traced) :
    (lastPage (j.layToken t following p)).Traced ∧
      ∃ es, (lastPage (j.layToken t following p)).events = p.events ++ es ∧ t.lexeme.Gives es := by
  have hmove : p.Steps { p with position := t.offset } := .single (.move p t.offset)
  obtain ⟨offset, afterBlank, lexeme⟩ := t
  cases lexeme with
  | text s => exact Page.Steps.traced (hmove.trans (steps_layTextToken hcodes offset s _ _)) hp
  | unrecognized s => exact hmove.traced hp
  | tag tag =>
    cases tag with
    | opening name attributes lead ending =>
      exact Page.Steps.traced (hmove.trans (steps_layOpening name attributes ending afterBlank _))
        hp
    | closing lead name trail =>
      exact Page.Steps.traced (hmove.trans (steps_layClosing name afterBlank _)) hp
  | raw s =>
    -- not a step: raw content may begin with a line feed of its own
    obtain ⟨hq, -⟩ := hmove.traced hp
    have hrecords := Page.records_append { p with position := offset } (trimEnd s)
    exact ⟨hq.records hrecords, _, hrecords.events, _, rfl⟩

theorem traced_layTokens (hcodes : j.ReadsCode) (ts : List Token) {p : Page} (hp : p.Traced) :
    (lastPage (j.layTokens ts p)).Traced ∧ ∃ es, (lastPage (j.layTokens ts p)).events =
      p.events ++ es ∧
      Yields (ts.map Token.lexeme) (j.layTokens ts p).isOk es := by
  induction ts generalizing p with
  | nil => exact ⟨hp, [], by simp [layTokens, lastPage], .nil _⟩
  | cons t ts ih =>
    obtain ⟨hq, es, hes, hgives⟩ := traced_layToken hcodes t ts hp
    unfold layTokens
    cases hrun : j.layToken t ts p with
    | error s =>
      rw [hrun] at hq hes
      exact ⟨hq, es, hes, .stop _ hgives⟩
    | ok q =>
      rw [hrun] at hq hes
      obtain ⟨hlast, fs, hfs, hyields⟩ := ih hq
      refine ⟨hlast, es ++ fs, ?_, .cons hgives hyields⟩
      rw [hes, List.append_assoc] at hfs
      exact hfs

end Job

/-- What the events of a layout of the lexemes tell. -/
structure IsTrace (ls : List Lexeme) (ended : Bool) (events : List Event) : Prop where
  /-- A block that is popped is the latest that is pushed and not popped. -/
  nested : ∃ labels, trackEvents events [] = some labels
  depths : HasDepths events
  closed : ended → pushes events = pops events
  indented : Yields ls ended events

theorem Page.traced_blank : Page.blank.Traced := by
  refine ⟨rfl, ?_⟩
  intro before e after hsplit
  simp [Page.blank] at hsplit

/-- The events of a body: when its layout ends, no block is left open. -/
theorem Job.isTrace_layBody {j : Job} (hcodes : j.ReadsCode) (body : Text) :
    IsTrace (lexemes body) (j.layBody body).isOk (lastPage (j.layBody body)).events := by
  obtain ⟨htraced, es, hes, hyields⟩ := traced_layTokens hcodes (tokens body) Page.traced_blank
  obtain rfl : _ = es := hes
  rw [map_lexeme_tokens] at hyields
  rcases j.layBody_cases body with ⟨stop, hrun, hbody⟩ | ⟨p, hrun, hblocks, hbody⟩ | ⟨p,
    hrun, -, hbody⟩
  · rw [hrun] at htraced hyields
    rw [hbody]
    exact ⟨⟨_, htraced.nested⟩, htraced.depths, by simp [Except.isOk, Except.toBool], hyields⟩
  · rw [hrun] at htraced hyields
    rw [hbody]
    refine ⟨⟨_, htraced.nested⟩, htraced.depths, fun _ => ?_, hyields⟩
    have hlength := length_trackEvents htraced.nested
    simp only [lastPage, hblocks, List.map_nil, List.length_nil, Nat.zero_add] at hlength
    exact hlength.symm
  · rw [hrun] at htraced hyields
    rw [hbody]
    exact ⟨⟨_, htraced.nested⟩, htraced.depths, by simp [Except.isOk, Except.toBool],
      hyields.stopped⟩

/-- The events of a run, whether it gives a document or fails, are a trace of the lexemes of the
marked body. -/
theorem isTrace_runDocument (options : Options) (source : Text) :
    IsTrace (lexemes (markedBody source).1) (runDocument options source).result.isOk
      (runDocument options source).events := by
  have hcodes : (⟨options, (markedBody source).2⟩ : Job).ReadsCode := by
    intro digits code hdigits
    obtain ⟨tag, htag, hread, -⟩ := exists_codeTag_of_code? hdigits
    exact ⟨tag, htag, hread⟩
  have htrace := Job.isTrace_layBody hcodes (markedBody source).1
  unfold runDocument
  unfold markedBody at htrace ⊢
  dsimp only
  cases hrun : (⟨options, (extractCode (splitFrontMatter source).2).2⟩ : Job).layBody
      (extractCode (splitFrontMatter source).2).1 with
  | ok page =>
    rw [hrun] at htrace
    exact htrace
  | error stop =>
    rw [hrun] at htrace
    exact htrace

end ErbLayout
