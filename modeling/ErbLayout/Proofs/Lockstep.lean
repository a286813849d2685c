import ErbLayout.Proofs.Document

/-!
Layouts of one document with different options. The outline of a page is what failures are made of:
the open blocks, without the text that their opening tags were laid out as, and the place that is
laid out. What a step does to the outline depends on the outline, on what the markers stand for and
on the probe. So two layouts with the same probe stay in lockstep, however much of their output
differs, and stop for the same cause at the same place.
-/

namespace ErbLayout

open Text Markup Code Layout

/-- The block without its opening tag as it was laid out. -/
def Block.bare : Block → Block
  | .element name _ => .element name []
  | .code fragment => .code fragment

@[simp] theorem Block.label_bare (b : Block) : b.bare.label = b.label := by
  cases b <;> rfl

@[simp] theorem Block.isClosedBy_bare (b : Block) (closer : Closer) :
    b.bare.isClosedBy closer = b.isClosedBy closer := by
  cases b <;> cases closer <;> rfl

theorem BlockStack.pop_bare (closer : Closer) (found : Text) (blocks : BlockStack) :
    BlockStack.pop closer found (blocks.map Block.bare) =
      (blocks.pop closer found).map fun (top, rest) => (top.bare, rest.map Block.bare) := by
  cases blocks with
  | nil => rfl
  | cons top rest =>
    simp only [BlockStack.pop, List.map_cons, Block.isClosedBy_bare, Block.label_bare]
    split <;> rfl

theorem BlockStack.finish_bare (blocks : BlockStack) :
    BlockStack.finish (blocks.map Block.bare) = blocks.finish := by
  cases blocks with
  | nil => rfl
  | cons top rest => simp [BlockStack.finish, BlockStack.labels, Function.comp_def]

/-- The open blocks, as far as a failure can tell, and the place that is laid out. -/
structure Outline where
  blocks : BlockStack
  position : Nat
  deriving DecidableEq, Repr

def Page.outline (p : Page) : Outline := ⟨p.blocks.map Block.bare, p.position⟩

def outlineOf : Except Stop Page → Except (Cause × Outline) Outline
  | .ok p => .ok p.outline
  | .error s => .error (s.cause, s.page.outline)

theorem outlineOf_bind {r r' : Except Stop Page} {next next' : Page → Except Stop Page}
    (h : outlineOf r = outlineOf r') (hnext : ∀ p q : Page, p.outline = q.outline →
      outlineOf (next p) = outlineOf (next' q)) :
    outlineOf (r >>= next) = outlineOf (r' >>= next') := by
  cases r with
  | ok p =>
    cases r' with
    | ok q => exact hnext p q (Except.ok.inj h)
    | error s => simp [outlineOf] at h
  | error s =>
    cases r' with
    | ok q => simp [outlineOf] at h
    | error s' => exact h

section Frame

/-! What is put out, and the events, are no part of the outline. -/

@[simp] theorem Page.outline_note (p : Page) (e : Event) : (p.note e).outline = p.outline := rfl

@[simp] theorem Page.outline_append (p : Page) (s : Text) : (p.append s).outline = p.outline := by
  cases p
  rfl

@[simp] theorem Page.outline_emit (p : Page) (s : Text) (newLine : Bool) :
    (p.emit s newLine).outline = p.outline := by
  cases newLine <;> simp [Page.emit]

theorem Page.outline_foldl_emit (p : Page) (newLine : Bool) (lines : List Text) :
    (lines.foldl (fun acc line => (acc.1.emit line acc.2, true)) (p, newLine)).1.outline =
      p.outline := by
  induction lines generalizing p newLine with
  | nil => rfl
  | cons line lines ih => rw [List.foldl_cons, ih, Page.outline_emit]

@[simp] theorem Job.outline_layText (j : Job) (s : Text) (tail : Nat) (p : Page) :
    (j.layText s tail p).outline = p.outline := by
  unfold layText
  split
  · rfl
  · dsimp only
    split
    · exact Page.outline_foldl_emit (p.note (.text s)) _ _
    · exact Page.outline_foldl_emit (p.note (.text s)) _ _

@[simp] theorem Job.outline_layCode (j : Job) (code : Text) (p : Page) :
    (j.layCode code p).2.outline = p.outline :=
  rfl

@[simp] theorem Job.outline_layOpener (j : Job) (code : Text) (p : Page) :
    (j.layOpener code p).2.outline = p.outline := by
  unfold layOpener
  split <;> rfl

end Frame

theorem Page.outline_push (p : Page) (b : Block) :
    (p.push b).outline = ⟨b.bare :: p.outline.blocks, p.position⟩ :=
  rfl

theorem Page.outlineOf_pop (p : Page) (closer : Closer) (found : Text) :
    outlineOf (p.pop closer found) =
      match BlockStack.pop closer found p.outline.blocks with
      | .error cause => .error (cause, p.outline)
      | .ok (_, rest) => .ok ⟨rest, p.outline.position⟩ := by
  unfold Page.pop
  rw [Page.outline, BlockStack.pop_bare]
  cases p.blocks.pop closer found with
  | error cause => rfl
  | ok popped => rfl

section Outlines

variable {p q : Page} (h : p.outline = q.outline)
include h

theorem outline_move (n : Nat) :
    Page.outline { p with position := n } = Page.outline { q with position := n } := by
  have hblocks : p.blocks.map Block.bare = q.blocks.map Block.bare := congrArg Outline.blocks h
  unfold Page.outline
  rw [hblocks]

theorem outline_push {b c : Block} (hblock : b.bare = c.bare) :
    (p.push b).outline = (q.push c).outline := by
  have hposition : p.position = q.position := congrArg Outline.position h
  rw [Page.outline_push, Page.outline_push, hblock, h, hposition]

theorem outlineOf_pop (closer : Closer) (found : Text) :
    outlineOf (p.pop closer found) = outlineOf (q.pop closer found) := by
  rw [Page.outlineOf_pop, Page.outlineOf_pop, h]

end Outlines

/-- The jobs agree on what decides the structure of a document. -/
structure Job.SameStructure (j j' : Job) : Prop where
  probe : j.options.probe = j'.options.probe
  table : j.table = j'.table

namespace Job.SameStructure

variable {j j' : Job} (hj : j.SameStructure j') {p q : Page}
include hj

theorem outlineOf_layCodeTag (written : Text) (newLine : Bool) (h : p.outline = q.outline) :
    outlineOf (j.layCodeTag written newLine p) = outlineOf (j'.layCodeTag written newLine q) := by
  unfold layCodeTag
  rw [hj.probe, hj.table]
  cases CodeTag.ofText? written with
  | none => simp [outlineOf, h]
  | some tag =>
    dsimp only
    cases Kind.of j'.options.probe tag.code with
    | comment => simp [outlineOf, h]
    | standalone => simp [outlineOf, h]
    | expression => simp [outlineOf, h]
    | opener =>
      have hpages : ∀ s s', ((j.layOpener tag.code p).2.emit s newLine).outline =
          ((j'.layOpener tag.code q).2.emit s' newLine).outline := by
        intro s s'
        simp [h]
      exact congrArg Except.ok (outline_push (hpages _ _) rfl)
    | closer =>
      exact outlineOf_bind (outlineOf_pop h .code _) fun p q hpages => by simp [outlineOf, hpages]
    | reopener =>
      refine outlineOf_bind (outlineOf_pop h .code _) fun p q hpages => congrArg Except.ok ?_
      apply outline_push _ rfl
      simp [hpages]

theorem outlineOf_layPieces (pieces : List (Text × Text × Text)) (offset : Nat)
    (h : p.outline = q.outline) :
    outlineOf (j.layPieces offset pieces p) = outlineOf (j'.layPieces offset pieces q) := by
  induction pieces generalizing offset p q with
  | nil => exact congrArg Except.ok h
  | cons piece pieces ih =>
    obtain ⟨before, written, code⟩ := piece
    have htext : (j.layText before 0 p).outline = (j'.layText before 0 q).outline := by simp [h]
    unfold layPieces
    exact outlineOf_bind (hj.outlineOf_layCodeTag code _ (outline_move htext _)) fun p q hpages =>
      ih _ hpages

/-- The columns that follow a text are seen in the output only. -/
theorem outlineOf_layTextToken (offset : Nat) (s : Text) (tail tail' : Nat)
    (h : p.outline = q.outline) :
    outlineOf (j.layTextToken offset s tail p) = outlineOf (j'.layTextToken offset s tail' q) := by
  unfold layTextToken
  rw [hj.table]
  split
  · simp [outlineOf, h]
  · exact outlineOf_bind (hj.outlineOf_layPieces _ offset h) fun p q hpages => by
      simp [outlineOf, hpages]

omit hj in
/-- The opening tag is laid out as the options say, but the block it opens has the same name. -/
theorem outlineOf_layOpening (name attributes : Text) (ending : Ending) (newLine : Bool)
    (h : p.outline = q.outline) :
    outlineOf (j.layOpening name attributes ending newLine p) =
      outlineOf (j'.layOpening name attributes ending newLine q) := by
  unfold layOpening
  split
  · simp [outlineOf, h]
  · dsimp only
    split
    · simp [outlineOf, h]
    · refine congrArg Except.ok (outline_push ?_ rfl)
      simp [h]

omit hj in
theorem outlineOf_layClosing (name : Text) (newLine : Bool) (h : p.outline = q.outline) :
    outlineOf (layClosing name newLine p) = outlineOf (layClosing name newLine q) :=
  outlineOf_bind (outlineOf_pop h (.tag name) _) fun p q hpages => by simp [outlineOf, hpages]

theorem outlineOf_layToken (t : Token) (following : List Token) (h : p.outline = q.outline) :
    outlineOf (j.layToken t following p) = outlineOf (j'.layToken t following q) := by
  have hplaced := outline_move h t.offset
  unfold layToken
  cases t.lexeme with
  | text s => exact hj.outlineOf_layTextToken t.offset s _ _ hplaced
  | raw s => simp [outlineOf, hplaced]
  | unrecognized s => simp [outlineOf, hplaced, hj.table]
  | tag tag =>
    cases tag with
    | opening name attributes gap ending =>
      exact outlineOf_layOpening name attributes ending _ hplaced
    | closing lead name trail => exact outlineOf_layClosing name _ hplaced

theorem outlineOf_layTokens (ts : List Token) (h : p.outline = q.outline) :
    outlineOf (j.layTokens ts p) = outlineOf (j'.layTokens ts q) := by
  induction ts generalizing p q with
  | nil => exact congrArg Except.ok h
  | cons t ts ih => exact outlineOf_bind (hj.outlineOf_layToken t ts h) fun p q hpages => ih hpages

theorem outlineOf_layBody (body : Text) :
    outlineOf (j.layBody body) = outlineOf (j'.layBody body) := by
  unfold layBody
  refine outlineOf_bind (hj.outlineOf_layTokens (tokens body) rfl) fun p q hpages => ?_
  have hplaced := outline_move hpages (byteSize body)
  have hfinish : p.blocks.finish = q.blocks.finish := by
    rw [← BlockStack.finish_bare p.blocks, ← BlockStack.finish_bare q.blocks]
    exact congrArg BlockStack.finish (congrArg Outline.blocks hpages)
  dsimp only
  rw [hfinish]
  split
  · exact congrArg Except.ok hplaced
  · simp [outlineOf, hplaced]

/-- A failure is made of the outline at which a layout stops. -/
theorem failureAt_eq (hname : j.options.filename = j'.options.filename) (above : Nat) (body : Text)
    {s s' : Stop} (hcause : s.cause = s'.cause) (h : s.page.outline = s'.page.outline) :
    j.failureAt above body s = j'.failureAt above body s' := by
  have hposition : s.page.position = s'.page.position := congrArg Outline.position h
  have hlabel : ∀ p : Page, p.blocks.head?.map Block.label =
      p.outline.blocks.head?.map Block.label := by
    intro p
    simp [Page.outline, Function.comp_def]
  unfold failureAt
  rw [hcause, hname, hj.table, hposition, hlabel, hlabel, h]

end Job.SameStructure

/-- Whether a document fails, and how, depends on the probe and on the name of the document only:
the line width, the layout of classes and their order and the formatter of code have no part in
it. -/
theorem formatDocument_eq_error_iff (options options' : Options)
    (hprobe : options.probe = options'.probe) (hname : options.filename = options'.filename)
    (source : Text) (failure : Failure) :
    formatDocument options source = .error failure ↔
      formatDocument options' source = .error failure := by
  have hjobs : Job.SameStructure ⟨options, (markedBody source).2⟩
    ⟨options', (markedBody source).2⟩ := ⟨hprobe, rfl⟩
  have houtline := hjobs.outlineOf_layBody (markedBody source).1
  rw [formatDocument_eq, formatDocument_eq]
  generalize (⟨options, (markedBody source).2⟩ : Job).layBody (markedBody source).1 =
    r at houtline ⊢
  generalize (⟨options', (markedBody source).2⟩ : Job).layBody (markedBody source).1 =
    r' at houtline ⊢
  cases r with
  | ok page =>
    cases r' with
    | ok page' => simp
    | error stop' => simp [outlineOf] at houtline
  | error stop =>
    cases r' with
    | ok page' => simp [outlineOf] at houtline
    | error stop' =>
      obtain ⟨hcause, hpages⟩ := Prod.mk.inj (Except.error.inj houtline)
      dsimp only
      rw [hjobs.failureAt_eq hname _ _ hcause hpages]

theorem formatDocument_eq_error_iff_reformatted :
    formatDocument {} "<p class='b a'>\n<%=x%> one two\n<% if y %></p>".toList =
        .error ⟨.unmatched (some "</p>".toList) ["if y".toList], "(erb)".toList, 3,
          some "if y".toList⟩ ∧
      formatDocument
          ⟨1, true, "(erb)".toList, leavesOpen, fun code _ => some (code ++ code), some fun c =>
            some c.length⟩
          "<p class='b a'>\n<%=x%> one two\n<% if y %></p>".toList =
        .error ⟨.unmatched (some "</p>".toList) ["if y".toList], "(erb)".toList, 3,
          some "if y".toList⟩ := by
  have hfails : formatDocument {} "<p class='b a'>\n<%=x%> one two\n<% if y %></p>".toList =
      .error ⟨.unmatched (some "</p>".toList) ["if y".toList], "(erb)".toList, 3,
        some "if y".toList⟩ := by
    decide +kernel
  refine ⟨hfails, (formatDocument_eq_error_iff {} _ ?_ ?_ _ _).mp hfails⟩
  · rfl
  · rfl

end ErbLayout
