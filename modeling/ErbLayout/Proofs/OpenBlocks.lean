import ErbLayout.Proofs.FailurePlace
import ErbLayout.Proofs.LaidTokens
import ErbLayout.Proofs.Trace

/-!
The open blocks of a page. A layout changes them in two ways: it puts out an opening tag or a code
tag and opens its block, or it closes the innermost block. So each open block has the name or the
code of something that is written in the template, and the events tell where it was opened: its tag
was put out at the depth outside it, then the block was pushed, and all that was pushed since is
popped.
-/

namespace ErbLayout

open Text Markup Code Layout

section Balanced

def IsBalanced (events : List Event) : Prop := ∀ labels, trackEvents events labels = some labels

theorem isBalanced_nil : IsBalanced [] := fun _ => rfl

theorem isBalanced_singleton {e : Event} (h : ∀ labels, e.track labels = some labels) :
    IsBalanced [e] := by
  intro labels
  simp [trackEvents, h]

theorem IsBalanced.append {es fs : List Event} (hes : IsBalanced es) (hfs : IsBalanced fs) :
    IsBalanced (es ++ fs) := by
  intro labels
  rw [trackEvents_append, hes labels]
  exact hfs labels

/-- What a block encloses stands between its push and its pop. -/
theorem IsBalanced.enclose {fs : List Event} (h : IsBalanced fs) (output label : Text)
    (m n k : Nat) :
    IsBalanced (.append output m :: .push label n :: (fs ++ [.pop label k])) := by
  intro labels
  simp only [trackEvents, Event.track, Option.bind_some, trackEvents_append, h (label :: labels)]
  simp

end Balanced

section Pages

def placed (newLine : Bool) (depth : Nat) (s : Text) : Text :=
  if newLine then onNewLine depth s else s

theorem Page.blocks_push_emit (p : Page) (s : Text) (newLine : Bool) (b : Block) :
    ((p.emit s newLine).push b).blocks = b :: p.blocks := by
  rw [Page.push, Page.note, Page.blocks_emit]

theorem Page.events_push_emit (p : Page) (s : Text) (newLine : Bool) (b : Block) :
    ((p.emit s newLine).push b).events = p.events ++
      [.append (placed newLine p.blocks.length s) p.blocks.length,
        .push b.label (p.blocks.length + 1)] := by
  cases p
  cases newLine <;> simp [Page.emit, Page.append, Page.push, Page.note, Page.depth, placed]

/-- The open blocks stay as they are, and the events that are added tell so. -/
structure Page.Keeps (p q : Page) : Prop where
  blocks : q.blocks = p.blocks
  events : ∃ es, q.events = p.events ++ es ∧ IsBalanced es

namespace Page.Keeps

theorem refl (p : Page) : p.Keeps p := ⟨rfl, [], by simp, isBalanced_nil⟩

theorem trans {p q r : Page} (hpq : p.Keeps q) (hqr : q.Keeps r) : p.Keeps r := by
  obtain ⟨es, hes, hesBalanced⟩ := hpq.events
  obtain ⟨fs, hfs, hfsBalanced⟩ := hqr.events
  exact ⟨hqr.blocks.trans hpq.blocks, es ++ fs, by rw [hfs, hes, List.append_assoc],
    hesBalanced.append hfsBalanced⟩

theorem position (p : Page) (n : Nat) : p.Keeps { p with position := n } :=
  ⟨rfl, [], by simp, isBalanced_nil⟩

theorem note (p : Page) {e : Event} (h : ∀ labels, e.track labels = some labels) :
    p.Keeps (p.note e) :=
  ⟨rfl, [e], rfl, isBalanced_singleton h⟩

theorem append (p : Page) (s : Text) : p.Keeps (p.append s) := by
  cases p
  exact ⟨rfl, _, rfl, isBalanced_singleton fun _ => rfl⟩

theorem emit (p : Page) (s : Text) (newLine : Bool) : p.Keeps (p.emit s newLine) := by
  cases newLine <;> exact append p _

theorem foldl_emit (lines : List Text) (p : Page) (newLine : Bool) :
    p.Keeps (lines.foldl (fun acc line => (acc.1.emit line acc.2, true)) (p, newLine)).1 := by
  induction lines generalizing p newLine with
  | nil => exact refl p
  | cons line lines ih => exact (emit p line newLine).trans (ih (p.emit line newLine) true)

theorem layText (j : Job) (s : Text) (tail : Nat) (p : Page) : p.Keeps (j.layText s tail p) := by
  unfold Job.layText
  split
  · exact refl p
  · have hlines := (note p fun _ => rfl).trans (foldl_emit (reflow j.width (j.room p)
      (j.options.lineWidth - j.width (lastLine p.output)) tail s).lines (p.note (.text s))
      (startsBlank s))
    dsimp only
    split
    · exact ⟨hlines.blocks, hlines.events⟩
    · exact hlines

theorem noteFormatted (j : Job) (code : Text) (p : Page) : p.Keeps (j.noteFormatted code p) :=
  (note p fun _ => rfl).trans (note _ fun _ => rfl)

theorem layOpener (j : Job) (code : Text) (p : Page) : p.Keeps (j.layOpener code p).2 := by
  unfold Job.layOpener
  split
  · exact refl p
  · exact noteFormatted j _ p

end Page.Keeps

/-- What shows that a block opens: an element its opening tag, a code block the tag of its code,
which may be formatted. -/
def Block.ShownAs : Block → Text → Prop
  | .element _ written, s => s = written
  | .code fragment, s => ∃ (tag : CodeTag) (code : Text), tag.code = fragment ∧ s = tag.render code

/-- One move of a layout, as far as the open blocks go. The labels of the blocks that it opens are
among `names`. -/
inductive Page.Move (names : Text → Prop) : Page → Page → Prop
  | keeps {p q : Page} : p.Keeps q → Move names p q
  | opens (p : Page) {b : Block} {s : Text} (newLine : Bool) : names b.label → b.ShownAs s →
      Move names p ((p.emit s newLine).push b)
  | closes {p q : Page} {closer : Closer} {found : Text} : p.pop closer found = .ok q →
      Move names p q

def Page.Moves (names : Text → Prop) : Page → Page → Prop := Relation.ReflTransGen (Page.Move names)

variable {names : Text → Prop} {p q r : Page}

theorem Page.exists_of_pop_eq_ok {closer : Closer} {found : Text} (h : p.pop closer found = .ok q) :
    ∃ top, p.blocks = top :: q.blocks ∧ top.isClosedBy closer ∧
      q.events = p.events ++ [.pop top.label q.blocks.length] := by
  unfold Page.pop at h
  cases hblocks : p.blocks with
  | nil => simp [hblocks, BlockStack.pop] at h
  | cons top rest =>
    by_cases hclosed : top.isClosedBy closer
    · simp only [hblocks, BlockStack.pop, hclosed, if_true] at h
      obtain rfl := Except.ok.inj h
      exact ⟨top, rfl, hclosed, rfl⟩
    · simp [hblocks, BlockStack.pop, hclosed] at h

namespace Page.Moves

theorem refl (p : Page) : p.Moves names p := Relation.ReflTransGen.refl

theorem trans (hpq : p.Moves names q) (hqr : q.Moves names r) : p.Moves names r :=
  Relation.ReflTransGen.trans hpq hqr

theorem keeps (h : p.Keeps q) : p.Moves names q := .single (.keeps h)

theorem pop (p : Page) (closer : Closer) (found : Text) :
    p.Moves names (lastPage (p.pop closer found)) := by
  cases h : p.pop closer found with
  | ok q => exact .single (.closes h)
  | error s =>
    obtain rfl := Page.stop_of_pop h
    exact refl p

theorem bind {r : Except Stop Page} {next : Page → Except Stop Page}
    (h : p.Moves names (lastPage r)) (hnext : ∀ q, r = .ok q → q.Moves names (lastPage (next q))) :
    p.Moves names (lastPage (r >>= next)) := by
  cases r with
  | ok q => exact h.trans (hnext q rfl)
  | error s => exact h

theorem mono {names' : Text → Prop} (h : p.Moves names q)
    (himp : ∀ label, names label → names' label) :
    p.Moves names' q := by
  refine Relation.ReflTransGen.mono ?_ p q h
  intro p q hmove
  cases hmove with
  | keeps hkeeps => exact .keeps hkeeps
  | opens newLine hnames hshown => exact .opens p newLine (himp _ hnames) hshown
  | closes hpop => exact .closes hpop

end Page.Moves

end Pages

/-- What a lexeme can name a block: an opening tag by its name, a text by the code of one of its
code tags. -/
def Markup.Lexeme.Names (table : MarkerTable) : Lexeme → Text → Prop
  | .tag (.opening name _ _ _), label => label = name
  | .text s, label => ∃ x ∈ (markers.split s).1, ∃ written tag, table.code? x.2 = some written ∧
      CodeTag.ofText? written = some tag ∧ label = tag.code
  | _, _ => False

namespace Job

variable {j : Job}

theorem moves_layCodeTag (written : Text) (newLine : Bool) (p : Page) :
    p.Moves (fun label => ∃ tag, CodeTag.ofText? written = some tag ∧ label = tag.code)
      (lastPage (j.layCodeTag written newLine p)) := by
  unfold layCodeTag
  cases htag : CodeTag.ofText? written with
  | none => exact .keeps (.emit p written newLine)
  | some tag =>
    have hopens : ∀ (q : Page) (code : Text),
      q.Move (fun label => ∃ tag', some tag = some tag' ∧ label = tag'.code)
        ((q.emit (tag.render code) newLine).push (.code tag.code)) :=
      fun q code => .opens q newLine ⟨tag, rfl, rfl⟩ ⟨tag, code, rfl, rfl⟩
    dsimp only
    cases Kind.of j.options.probe tag.code with
    | comment => exact .keeps (.emit p _ newLine)
    | standalone => exact .keeps ((Page.Keeps.noteFormatted j tag.code p).trans (.emit _ _ newLine))
    | expression => exact .keeps ((Page.Keeps.noteFormatted j tag.code p).trans (.emit _ _ newLine))
    | opener =>
      exact Relation.ReflTransGen.tail (.single (.keeps (.layOpener j tag.code p))) (hopens _ _)
    | closer => exact .bind (.pop p .code _) fun q _ => .keeps (.emit q _ newLine)
    | reopener => exact .bind (.pop p .code _) fun q _ => .single (hopens q _)

theorem moves_layPieces (pieces : List (Text × Text × Text)) (offset : Nat) (p : Page) :
    p.Moves (fun label => ∃ x ∈ pieces, ∃ tag, CodeTag.ofText? x.2.2 = some tag ∧ label = tag.code)
      (lastPage (j.layPieces offset pieces p)) := by
  induction pieces generalizing offset p with
  | nil => exact .refl p
  | cons x pieces ih =>
    obtain ⟨before, written, code⟩ := x
    unfold layPieces
    have hkeeps : p.Keeps { j.layText before 0 p with position := offset + byteSize before } :=
      (Page.Keeps.layText j before 0 p).trans (.position _ _)
    refine .bind (.trans (.keeps hkeeps) ((moves_layCodeTag code _ _).mono ?_)) fun q _ =>
      (ih _ q).mono ?_
    · rintro label ⟨tag, htag⟩
      exact ⟨_, List.mem_cons_self, tag, htag⟩
    · rintro label ⟨y, hy, htag⟩
      exact ⟨y, List.mem_cons_of_mem _ hy, htag⟩

theorem moves_layTextToken (offset : Nat) (s : Text) (tail : Nat) (p : Page) :
    p.Moves ((Lexeme.text s).Names j.table) (lastPage (j.layTextToken offset s tail p)) := by
  unfold layTextToken
  split
  · exact .refl p
  · refine .bind ((moves_layPieces _ offset p).mono ?_) fun q _ => .keeps (.layText j _ tail q)
    rintro label ⟨x, hx, tag, htag⟩
    obtain ⟨before, after, hpieces⟩ := List.append_of_mem hx
    obtain ⟨earlier, b, digits, later, hfound, hcode, -⟩ :=
      exists_of_codePieces_eq j.options.probe hpieces
    exact ⟨(b, digits), by simp [hfound], x.2.2, tag, hcode, htag⟩

theorem moves_layOpening (name attributes : Text) (ending : Ending) (newLine : Bool) (p : Page) :
    p.Moves (· = name) (lastPage (j.layOpening name attributes ending newLine p)) := by
  unfold layOpening
  split
  · exact .refl p
  · dsimp only
    split
    · exact .keeps (.emit p _ newLine)
    · exact .single (.opens p newLine rfl rfl)

theorem moves_layToken (t : Token) (following : List Token) (p : Page) :
    p.Moves (t.lexeme.Names j.table) (lastPage (j.layToken t following p)) := by
  obtain ⟨offset, afterBlank, lexeme⟩ := t
  refine .trans (.keeps (.position p offset)) ?_
  cases lexeme with
  | text s => exact moves_layTextToken offset s _ _
  | raw s => exact .keeps (.append _ _)
  | unrecognized s => exact .refl _
  | tag tag =>
    cases tag with
    | opening name attributes gap ending =>
      exact moves_layOpening name attributes ending afterBlank _
    | closing lead name trail =>
      exact .bind (.pop _ (.tag name) _) fun q _ => .keeps (.emit q _ afterBlank)

theorem moves_layBefore (rest ts : List Token) (p : Page) :
    p.Moves (fun label => ∃ t ∈ ts, t.lexeme.Names j.table label)
      (lastPage (j.layBefore rest ts p)) := by
  induction ts generalizing p with
  | nil => exact .refl p
  | cons t ts ih =>
    unfold layBefore
    refine .bind ((moves_layToken t (ts ++ rest) p).mono ?_) fun q _ => (ih q).mono ?_
    · exact fun label h => ⟨t, List.mem_cons_self, h⟩
    · rintro label ⟨u, hu, h⟩
      exact ⟨u, List.mem_cons_of_mem t hu, h⟩

theorem moves_layTokens (ts : List Token) (p : Page) :
    p.Moves (fun label => ∃ t ∈ ts, t.lexeme.Names j.table label)
      (lastPage (j.layTokens ts p)) := by
  have happend := j.layTokens_append ts [] p
  rw [List.append_nil] at happend
  rw [happend]
  exact .bind (moves_layBefore [] ts p) fun q _ => .refl q

end Job

section Invariants

variable {names : Text → Prop} {p q : Page}

theorem Page.Move.labels (h : p.Move names q) (hp : ∀ b ∈ p.blocks, names b.label) :
    ∀ b ∈ q.blocks, names b.label := by
  intro b hb
  cases h with
  | keeps hkeeps =>
    rw [hkeeps.blocks] at hb
    exact hp b hb
  | opens newLine hnames =>
    rw [Page.blocks_push_emit] at hb
    rcases List.mem_cons.mp hb with rfl | hb
    · exact hnames
    · exact hp b hb
  | closes hpop =>
    obtain ⟨top, hblocks, -⟩ := Page.exists_of_pop_eq_ok hpop
    exact hp b (by simp [hblocks, hb])

/-- Moves open no block but with a label among the names. -/
theorem Page.Moves.labels (h : p.Moves names q) (hp : ∀ b ∈ p.blocks, names b.label) :
    ∀ b ∈ q.blocks, names b.label := by
  induction h with
  | refl => exact hp
  | tail _ hmove ih => exact hmove.labels ih

/-- The blocks that a layout of a body leaves open are named by lexemes of the body. -/
theorem Job.exists_names_of_layBody (j : Job) (body : Text) :
    ∀ b ∈ (lastPage (j.layBody body)).blocks, ∃ t ∈ tokens body,
      t.lexeme.Names j.table b.label := by
  have hlabels := Page.Moves.labels (j.moves_layTokens (tokens body) Page.blank)
    (by simp [Page.blank])
  rcases j.layBody_cases body with ⟨stop, hlay, hbody⟩ | ⟨p, hlay, -, hbody⟩ | ⟨p, hlay, -, hbody⟩
  all_goals
    rw [hlay] at hlabels
    rw [hbody]
    exact hlabels

/-- The open blocks, innermost first, with the events that opened them: what shows the block is put
out at the depth outside it, the block is pushed, and what follows pops all that it pushes. -/
inductive Opened : BlockStack → List Event → Prop
  | nil {events : List Event} : IsBalanced events → Opened [] events
  | cons {blocks : BlockStack} {b : Block} {s : Text} {es fs : List Event}
      (newLine : Bool) : Opened blocks es →
      b.ShownAs s → IsBalanced fs →
      Opened (b :: blocks)
        (es ++ .append (placed newLine blocks.length s) blocks.length ::
          .push b.label (blocks.length + 1) :: fs)

theorem Opened.append {blocks : BlockStack} {es fs : List Event} (h : Opened blocks es)
    (hfs : IsBalanced fs) :
    Opened blocks (es ++ fs) := by
  cases h with
  | nil hes => exact .nil (hes.append hfs)
  | cons newLine hes hshown hgs =>
    rw [List.append_assoc]
    exact .cons newLine hes hshown (hgs.append hfs)

theorem Page.Move.opened (h : p.Move names q) (hp : Opened p.blocks p.events) :
    Opened q.blocks q.events := by
  cases h with
  | keeps hkeeps =>
    obtain ⟨es, hes, hbalanced⟩ := hkeeps.events
    rw [hkeeps.blocks, hes]
    exact hp.append hbalanced
  | opens newLine _ hshown =>
    rw [Page.blocks_push_emit, Page.events_push_emit]
    exact .cons newLine hp hshown isBalanced_nil
  | closes hpop =>
    obtain ⟨top, hblocks, -, hevents⟩ := Page.exists_of_pop_eq_ok hpop
    rw [hblocks] at hp
    generalize hes : p.events = es at hp
    rw [hevents, hes]
    cases hp with
    | cons newLine hopened hshown hfs =>
      -- what was open before the block is open again
      rw [List.append_assoc]
      exact hopened.append (hfs.enclose _ _ _ _ _)

theorem Page.Move.isPrefix (h : p.Move names q) : p.events <+: q.events := by
  cases h with
  | keeps hkeeps =>
    obtain ⟨es, hes, -⟩ := hkeeps.events
    exact ⟨es, hes.symm⟩
  | opens newLine =>
    rw [Page.events_push_emit]
    exact List.prefix_append _ _
  | closes hpop =>
    obtain ⟨top, -, -, hevents⟩ := Page.exists_of_pop_eq_ok hpop
    exact ⟨_, hevents.symm⟩

/-- Moves only add events. -/
theorem Page.Moves.isPrefix (h : p.Moves names q) : p.events <+: q.events := by
  induction h with
  | refl => exact List.prefix_rfl
  | tail _ hmove ih => exact ih.trans hmove.isPrefix

/-- Moves keep track of where the open blocks were opened. -/
theorem Page.Moves.opened (h : p.Moves names q) (hp : Opened p.blocks p.events) :
    Opened q.blocks q.events := by
  induction h with
  | refl => exact hp
  | tail _ hmove ih => exact hmove.opened ih

end Invariants

end ErbLayout
