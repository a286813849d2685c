import ErbLayout.Proofs.Document
import ErbLayout.Proofs.Nesting

/-!
A document is laid out exactly when its tags and code blocks nest. The tokens of the marked body are
read as a word of brackets: a tag contributes by its name, and a text by the kinds of the code tags
that its markers stand for. The open blocks of a page follow the stack machine of nesting on this
word, so that the layout goes on as long as the machine does; a text with blanks after the equals
sign of an attribute is the only other thing that stops it.
-/

namespace ErbLayout

open Text Markup Code

def Block.frame : Block → Frame
  | .element name _ => .element name
  | .code _ => .code

def Page.frames (p : Page) : List Frame := p.blocks.map Block.frame

def codeBrackets (probe : Text → Bool) (written : Text) : List Bracket :=
  match CodeTag.ofText? written with
  | none => []
  | some tag =>
    match Kind.of probe tag.code with
    | .opener => [.opener]
    | .closer => [.closer]
    | .reopener => [.reopener]
    | .comment | .standalone | .expression => []

def markerBrackets (probe : Text → Bool) (table : MarkerTable) (digits : Text) : List Bracket :=
  match table.code? digits with
  | none => []
  | some written => codeBrackets probe written

/-- The brackets of a lexeme: those of the markers in a text, and those of tags. -/
def lexemeBrackets (probe : Text → Bool) (table : MarkerTable) : Lexeme → List Bracket
  | .text s => (markers.found s).flatMap (markerBrackets probe table)
  | .tag (.opening name _ _ ending) =>
    if ending = .slash || isVoidElement name then [] else [.openTag name]
  | .tag (.closing _ name _) => [.closeTag name]
  | .raw _ | .unrecognized _ => []

def bracketWord (probe : Text → Bool) (table : MarkerTable) (ts : List Token) : List Bracket :=
  ts.flatMap fun t => lexemeBrackets probe table t.lexeme

def Markup.Lexeme.IsBad : Lexeme → Prop
  | .text s => badAttributes.occursIn s
  | _ => False

/-- The causes that stop the layout of a document. -/
def Cause.IsStructural (c : Cause) : Prop :=
  (∃ text, c = .badAttribute text) ∨ ∃ found labels, c = .unmatched found labels

/-- A layout follows the stack machine: it succeeds with the frames of the machine, and it fails
only when the machine does or when something bad is met. -/
def Follows (bad : Prop) (frames : Option (List Frame)) (r : Except Stop Page) : Prop :=
  match r with
  | .ok p => ¬ bad ∧ frames = some p.frames
  | .error s => (bad ∨ frames = none) ∧ s.cause.IsStructural

theorem follows_ok {p : Page} {frames : List Frame} (h : p.frames = frames) :
    Follows False (some frames) (.ok p) := ⟨id, by rw [h]⟩

/-- Layouts one after the other follow the machine when each does. -/
theorem Follows.bind {bad bad' : Prop} {u v : List Bracket} {frames : List Frame}
    {r : Except Stop Page} {next : Page → Except Stop Page}
    (h : Follows bad (runBrackets u frames) r)
    (hnext : ∀ p : Page, Follows bad' (runBrackets v p.frames) (next p)) :
    Follows (bad ∨ bad') (runBrackets (u ++ v) frames) (r >>= next) := by
  rw [runBrackets_append]
  cases r with
  | error s =>
    obtain ⟨hstop, hcause⟩ := h
    refine ⟨?_, hcause⟩
    rcases hstop with hbad | hnone
    · exact Or.inl (Or.inl hbad)
    · exact Or.inr (by rw [hnone]; rfl)
  | ok p =>
    obtain ⟨hgood, hframes⟩ := h
    have hp := hnext p
    rw [hframes]
    change Follows (bad ∨ bad') (runBrackets v p.frames) (next p)
    cases hr : next p with
    | error s =>
      rw [hr] at hp
      exact ⟨hp.1.imp Or.inr id, hp.2⟩
    | ok p' =>
      rw [hr] at hp
      exact ⟨not_or.mpr ⟨hgood, hp.1⟩, hp.2⟩

theorem Follows.congr {bad bad' : Prop} {frames frames' : Option (List Frame)}
    {r : Except Stop Page} (h : Follows bad frames r) (hbad : bad ↔ bad')
    (hframes : frames = frames') : Follows bad' frames' r := by
  obtain rfl := propext hbad
  subst hframes
  exact h

@[simp] theorem Page.frames_note (p : Page) (e : Event) : (p.note e).frames = p.frames := rfl

@[simp] theorem Page.frames_append (p : Page) (s : Text) : (p.append s).frames = p.frames := by
  cases p
  rfl

@[simp] theorem Page.frames_emit (p : Page) (s : Text) (newLine : Bool) :
    (p.emit s newLine).frames = p.frames := by
  cases newLine <;> simp [Page.emit]

@[simp] theorem Page.frames_push (p : Page) (b : Block) : (p.push b).frames = b.frame :: p.frames :=
  rfl

namespace Job

@[simp] theorem frames_layText (j : Job) (s : Text) (tail : Nat) (p : Page) :
    (j.layText s tail p).frames = p.frames := by
  have hlines : ∀ (lines : List Text) (q : Page) (newLine : Bool),
      (lines.foldl (fun acc line => (acc.1.emit line acc.2, true)) (q, newLine)).1.frames =
      q.frames := by
    intro lines
    induction lines with
    | nil => intros; rfl
    | cons line lines ih =>
      intro q newLine
      rw [List.foldl_cons, ih]
      simp
  unfold layText
  split
  · rfl
  · dsimp only
    split
    · exact hlines _ _ _
    · exact hlines _ _ _

@[simp] theorem frames_layCode (j : Job) (code : Text) (p : Page) :
    (j.layCode code p).2.frames = p.frames :=
  rfl

@[simp] theorem frames_layOpener (j : Job) (code : Text) (p : Page) :
    (j.layOpener code p).2.frames = p.frames := by
  unfold layOpener
  split <;> rfl

end Job

theorem follows_pop_tag (p : Page) (name found : Text) :
    Follows False (runBrackets [.closeTag name] p.frames) (p.pop (.tag name) found) := by
  unfold Page.pop Page.frames
  cases hblocks : p.blocks with
  | nil => exact ⟨Or.inr rfl, Or.inr ⟨_, _, rfl⟩⟩
  | cons top rest =>
    cases top with
    | code fragment => exact ⟨Or.inr rfl, Or.inr ⟨_, _, rfl⟩⟩
    | element name' written =>
      by_cases hname : name' = name
      · subst hname
        simp [Follows, BlockStack.pop, Block.isClosedBy, Block.frame, runBrackets, Bracket.step,
          Page.frames, Page.note]
      · simp [Follows, BlockStack.pop, Block.isClosedBy, Block.frame, runBrackets,
          Bracket.step, hname, Cause.IsStructural]

theorem follows_pop_code (p : Page) (found : Text) :
    Follows False (runBrackets [.closer] p.frames) (p.pop .code found) := by
  unfold Page.pop Page.frames
  cases hblocks : p.blocks with
  | nil => exact ⟨Or.inr rfl, Or.inr ⟨_, _, rfl⟩⟩
  | cons top rest =>
    cases top with
    | element name written => exact ⟨Or.inr rfl, Or.inr ⟨_, _, rfl⟩⟩
    | code fragment => exact ⟨id, rfl⟩

theorem follows_bind_ok {u v : List Bracket} {frames : List Frame} {r : Except Stop Page}
    {next : Page → Page} (h : Follows False (runBrackets u frames) r)
    (hnext : ∀ p : Page, runBrackets v p.frames = some (next p).frames) :
    Follows False (runBrackets (u ++ v) frames) (r >>= fun p => .ok (next p)) := by
  have hbind : Follows (False ∨ False) (runBrackets (u ++ v) frames)
      (r >>= fun p => .ok (next p)) :=
    h.bind fun p => ⟨id, hnext p⟩
  exact hbind.congr (by simp) rfl

theorem runBrackets_reopener (frames : List Frame) :
    runBrackets [.reopener] frames = runBrackets ([.closer] ++ [.opener]) frames := by
  cases frames with
  | nil => rfl
  | cons f frames => cases f <;> rfl

namespace Job

theorem follows_layCodeTag (j : Job) (written : Text) (newLine : Bool) (p : Page) :
    Follows False (runBrackets (codeBrackets j.options.probe written) p.frames)
      (j.layCodeTag written newLine p) := by
  unfold layCodeTag codeBrackets
  cases CodeTag.ofText? written with
  | none => exact follows_ok (by simp)
  | some tag =>
    dsimp only
    cases Kind.of j.options.probe tag.code with
    | comment => exact follows_ok (by simp)
    | standalone => exact follows_ok (by simp)
    | expression => exact follows_ok (by simp)
    | opener => exact follows_ok (by simp [Block.frame])
    | closer =>
      exact follows_bind_ok (v := []) (follows_pop_code p _) fun q => by simp [runBrackets]
    | reopener =>
      dsimp only
      -- the layout pops the block and pushes it again: the machine takes two steps
      rw [runBrackets_reopener]
      exact follows_bind_ok (follows_pop_code p _) fun q => by
        simp [runBrackets, Bracket.step, Block.frame]

theorem follows_layPieces (j : Job) (pieces : List (Text × Text × Text)) (offset : Nat) (p : Page) :
    Follows False (runBrackets (pieces.flatMap fun piece =>
      codeBrackets j.options.probe piece.2.2) p.frames)
      (j.layPieces offset pieces p) := by
  induction pieces generalizing offset p with
  | nil => exact follows_ok rfl
  | cons piece pieces ih =>
    obtain ⟨before, marked, code⟩ := piece
    have hcode := j.follows_layCodeTag code (endsBlank before)
      { j.layText before 0 p with position := offset + byteSize before }
    have hframes : Page.frames { j.layText before 0 p with position := offset + byteSize before } =
        p.frames := j.frames_layText before 0 p
    rw [hframes] at hcode
    have hbind := hcode.bind fun q => ih (offset + byteSize before + byteSize marked) q
    exact hbind.congr (by simp) (by rw [List.flatMap_cons])

/-- The pieces of a text have the code tags that its markers stand for. -/
theorem flatMap_codePieces (probe : Text → Bool) (table : MarkerTable) (before : Text)
    (found : List (Text × Text)) (tail : Text) :
    ((codePieces table before found tail).1.flatMap fun piece => codeBrackets probe piece.2.2) =
      (found.map Prod.snd).flatMap (markerBrackets probe table) := by
  induction found generalizing before with
  | nil => rfl
  | cons x found ih =>
    obtain ⟨b, digits⟩ := x
    cases hcode : table.code? digits with
    | none => simp [codePieces, hcode, markerBrackets, ih]
    | some code => simp [codePieces, hcode, markerBrackets, ih]

/-- A text laid out follows the machine, unless it has a bad attribute. -/
theorem follows_layTextToken (j : Job) (offset : Nat) (s : Text) (tail : Nat) (p : Page) :
    Follows (badAttributes.occursIn s)
      (runBrackets ((markers.found s).flatMap (markerBrackets j.options.probe j.table)) p.frames)
      (j.layTextToken offset s tail p) := by
  unfold layTextToken
  by_cases hbad : badAttributes.occursIn s = true
  · rw [if_pos hbad]
    exact ⟨Or.inl hbad, Or.inl ⟨_, rfl⟩⟩
  · rw [if_neg hbad]
    dsimp only
    have hpieces := j.follows_layPieces (codePieces j.table []
      (markers.split s).1 (markers.split s).2).1 offset p
    rw [flatMap_codePieces] at hpieces
    have hlast : ∀ q : Page, runBrackets [] q.frames = some (j.layText (codePieces j.table []
        (markers.split s).1 (markers.split s).2).2 tail q).frames := by
      intro q
      simp [runBrackets]
    have hbind := follows_bind_ok hpieces hlast
    rw [List.append_nil] at hbind
    exact hbind.congr (by simp [hbad]) rfl

theorem follows_layOpening (j : Job) {name : Text} (hname : isTagName name) (attributes : Text)
    (ending : Ending) (newLine : Bool) (p : Page) :
    Follows False
      (runBrackets (if ending = .slash || isVoidElement name then [] else [.openTag name]) p.frames)
      (j.layOpening name attributes ending newLine p) := by
  have hknown : ¬ (!isTagName name) = true := by simp [hname]
  unfold layOpening
  rw [if_neg hknown]
  dsimp only
  by_cases hclosed : (decide (ending = .slash) || isVoidElement name) = true
  · rw [if_pos hclosed, if_pos hclosed]
    exact follows_ok (by simp)
  · rw [if_neg hclosed, if_neg hclosed]
    exact follows_ok (by simp [Block.frame])

theorem follows_layClosing (name : Text) (newLine : Bool) (p : Page) :
    Follows False (runBrackets [.closeTag name] p.frames) (layClosing name newLine p) :=
  follows_bind_ok (v := []) (follows_pop_tag p name _) fun q => by simp [runBrackets]

theorem follows_layToken (j : Job) {t : Token} (hfits : t.lexeme.Fits t.lexeme.written)
    (following : List Token) (p : Page) :
    Follows t.lexeme.IsBad (runBrackets (lexemeBrackets j.options.probe j.table t.lexeme) p.frames)
      (j.layToken t following p) := by
  unfold layToken
  cases hl : t.lexeme with
  | text s => exact j.follows_layTextToken t.offset s _ { p with position := t.offset }
  | raw s => exact follows_ok (Page.frames_append { p with position := t.offset } (trimEnd s))
  | unrecognized s =>
    -- the scanner gives no such token
    rw [hl] at hfits
    exact hfits.elim
  | tag tag =>
    rw [hl] at hfits
    have hread := tag?_eq_some_isRead (hfits [])
    cases tag with
    | opening name attributes gap ending =>
      exact j.follows_layOpening hread.1 attributes ending t.afterBlank
        { p with position := t.offset }
    | closing lead name trail =>
      exact follows_layClosing name t.afterBlank { p with position := t.offset }

theorem follows_layTokens (j : Job) {ts : List Token}
    (hfits : ∀ t ∈ ts, t.lexeme.Fits t.lexeme.written) (p : Page) :
    Follows (∃ t ∈ ts, t.lexeme.IsBad)
      (runBrackets (bracketWord j.options.probe j.table ts) p.frames)
      (j.layTokens ts p) := by
  induction ts generalizing p with
  | nil => exact (follows_ok rfl).congr (by simp) rfl
  | cons t ts ih =>
    have hhead := j.follows_layToken (hfits t (List.mem_cons_self ..)) ts p
    have hbind := hhead.bind fun q => ih (fun u hu => hfits u (List.mem_cons_of_mem t hu)) q
    exact hbind.congr (by simp) rfl

/-- A body is laid out with its blocks all closed when nothing bad is met and its word nests, and
its layout stops for a structural cause otherwise. -/
theorem layBody_follows (j : Job) (body : Text) :
    (∃ page, j.layBody body = .ok page ∧ (¬ ∃ t ∈ tokens body, t.lexeme.IsBad) ∧
      Nested (bracketWord j.options.probe j.table (tokens body))) ∨
    ∃ stop, j.layBody body = .error stop ∧ stop.cause.IsStructural ∧
      ((∃ t ∈ tokens body, t.lexeme.IsBad) ∨
        ¬ Nested (bracketWord j.options.probe j.table (tokens body))) := by
  have hfits : ∀ t ∈ tokens body, t.lexeme.Fits t.lexeme.written :=
    fun t ht => fits_of_mem_tokens ht
  have hfollows := j.follows_layTokens hfits Page.blank
  have hstart : Page.blank.frames = [] := rfl
  rw [hstart] at hfollows
  rw [← runBrackets_eq_nil_iff]
  rcases j.layBody_cases body with ⟨stop, hlay, hbody⟩ | ⟨p, hlay, hblocks, hbody⟩ |
    ⟨p, hlay, hblocks, hbody⟩
  · rw [hlay] at hfollows
    obtain ⟨hstop, hcause⟩ := hfollows
    refine Or.inr ⟨stop, hbody, hcause, hstop.imp_right ?_⟩
    intro hnone
    rw [hnone]
    simp
  · rw [hlay] at hfollows
    obtain ⟨hgood, hframes⟩ := hfollows
    refine Or.inl ⟨_, hbody, hgood, ?_⟩
    rw [hframes, Page.frames, hblocks]
    rfl
  · -- the tokens are laid out, but the machine ends with the frames of the blocks that are left
    rw [hlay] at hfollows
    obtain ⟨-, hframes⟩ := hfollows
    refine Or.inr ⟨_, hbody, Or.inr ⟨_, _, rfl⟩, Or.inr ?_⟩
    rw [hframes, Page.frames]
    simpa using hblocks

end Job

theorem exists_isBad_iff {ts : List Token} :
    (∃ t ∈ ts, t.lexeme.IsBad) ↔
      ¬ ∀ t ∈ ts, ∀ s, t.lexeme = .text s → badAttributes.first? s = none := by
  constructor
  · rintro ⟨t, ht, hbad⟩ hnone
    cases hl : t.lexeme with
    | text s =>
      rw [hl] at hbad
      have hfirst := hnone t ht s hl
      simp [Lexeme.IsBad, Recogniser.occursIn, hfirst] at hbad
    | raw s => simp [hl, Lexeme.IsBad] at hbad
    | tag tag => simp [hl, Lexeme.IsBad] at hbad
    | unrecognized s => simp [hl, Lexeme.IsBad] at hbad
  · intro h
    by_contra hgood
    refine h fun t ht s hl => ?_
    by_contra hfirst
    refine hgood ⟨t, ht, ?_⟩
    rw [hl]
    exact Option.isSome_iff_ne_none.mpr hfirst

/-- A document is laid out exactly when no text has blanks after the equals sign of an attribute and
its tags and code blocks nest; otherwise one of these is the cause of the failure. -/
theorem formatDocument_eq_ok_iff_nested (options : Options) (source : Text) :
    ((∃ out, formatDocument options source = .ok out) ↔
      (∀ t ∈ tokens (markedBody source).1, ∀ s, t.lexeme = .text s →
        badAttributes.first? s = none) ∧
        Nested (bracketWord options.probe (markedBody source).2 (tokens (markedBody source).1))) ∧
    ∀ failure, formatDocument options source = .error failure →
      (∃ text, failure.cause = .badAttribute text) ∨
        ∃ found labels, failure.cause = .unmatched found labels := by
  have hspec := Job.layBody_follows ⟨options, (markedBody source).2⟩ (markedBody source).1
  rw [formatDocument_eq]
  rcases hspec with ⟨page, hlay, hgood, hnested⟩ | ⟨stop, hlay, hcause, hstop⟩
  · rw [hlay]
    rw [exists_isBad_iff, not_not] at hgood
    exact ⟨⟨fun _ => ⟨hgood, hnested⟩, fun _ => ⟨_, rfl⟩⟩, by simp⟩
  · rw [hlay]
    rw [exists_isBad_iff] at hstop
    constructor
    · refine ⟨by simp, ?_⟩
      rintro ⟨hgood, hnested⟩
      rcases hstop with hbad | hnot
      · exact absurd hgood hbad
      · exact absurd hnested hnot
    · intro failure hfailure
      obtain rfl := Except.error.inj hfailure
      exact hcause

end ErbLayout
