import ErbLayout.Block
import ErbLayout.Code.Kind
import ErbLayout.Event
import ErbLayout.FrontMatter
import ErbLayout.Layout.Attributes
import ErbLayout.Layout.Reflow
import ErbLayout.Marker
import ErbLayout.Markup.Token

/-!
The layout of a document. Front matter is set aside, code tags are replaced by markers, and the
tokens of the body are laid out one after the other on a page that holds the open blocks, the output
so far and the events of the run. At the end the markers are replaced again. A step that cannot be
taken stops the run with the cause and the page as it was.
-/

namespace ErbLayout

open Text Markup Code Layout

structure Options where
  lineWidth : Nat := 80
  singleClassPerLine : Bool := false
  /-- The name of the document in messages. -/
  filename : Text := "(erb)".toList
  /-- Whether a code fragment leaves a block open. -/
  probe : Text → Bool := leavesOpen
  /-- Code formatted for a number of columns, or nothing when it stays as it is. -/
  formatCode : Text → Nat → Option Text := fun _ _ => none
  ranking : Option Ranking := none

/-- The state of a layout. -/
structure Page where
  /-- The open blocks, innermost first. -/
  blocks : BlockStack
  /-- The output, with markers in place of code inside attributes and raw text. -/
  output : Text
  events : List Event
  /-- The byte offset in the body of the construct that is laid out. -/
  position : Nat

structure Stop where
  cause : Cause
  page : Page

/-- What a layout needs besides the page: the options and what the markers stand for. -/
structure Job where
  options : Options
  table : MarkerTable

namespace Page

def blank : Page := ⟨[], [], [], 0⟩

def depth (p : Page) : Nat := p.blocks.length

def note (p : Page) (e : Event) : Page := { p with events := p.events ++ [e] }

def append : Page → Text → Page
  | ⟨blocks, output, events, position⟩, s =>
    ⟨blocks, output ++ s, events ++ [.append s blocks.length], position⟩

def emit (p : Page) (s : Text) (newLine : Bool) : Page :=
  if newLine then p.append (onNewLine p.depth s) else p.append s

def push (p : Page) (b : Block) : Page :=
  { p with blocks := b :: p.blocks }.note (.push b.label (p.depth + 1))

/-- The page without its innermost block, which the closer, found as written, must close. -/
def pop (p : Page) (closer : Closer) (found : Text) : Except Stop Page :=
  match p.blocks.pop closer found with
  | .error cause => .error ⟨cause, p⟩
  | .ok (block, rest) => .ok ({ p with blocks := rest }.note (.pop block.label rest.length))

end Page

namespace Job

def width (j : Job) (s : Text) : Nat := j.table.width s

def room (j : Job) (p : Page) : Nat := available j.options.lineWidth p.depth

/-- Running text laid out; `tail` columns of tags follow it without a blank. -/
def layText (j : Job) (s : Text) (tail : Nat) (p : Page) : Page :=
  if s.isEmpty then p
  else
    let inlineWidth := j.options.lineWidth - j.width (lastLine p.output)
    let reflowed := reflow j.width (j.room p) inlineWidth tail s
    let emitLine (acc : Page × Bool) (line : Text) : Page × Bool := (acc.1.emit line acc.2, true)
    let p := (reflowed.lines.foldl emitLine (p.note (.text s), reflowed.onNewLine)).1
    if reflowed.paragraphBreak then { p with output := p.output ++ ['\n'] } else p

def formatted? (j : Job) (code : Text) (p : Page) : Option Text :=
  (j.options.formatCode code (j.room p)).filter fun s => !allBlank s

def noteFormatted (j : Job) (code : Text) (p : Page) : Page :=
  (p.note (.codeIn code (j.room p))).note (.codeOut (j.formatted? code p))

def layCode (j : Job) (code : Text) (p : Page) : Text × Page :=
  (match j.formatted? code p with
    | some formatted => reindent p.depth formatted
    | none => code,
    j.noteFormatted code p)

/-- Code that opens a block, formatted with a terminator that is taken off again. -/
def layOpener (j : Job) (code : Text) (p : Page) : Text × Page :=
  match close? j.options.probe code with
  | none => (code, p)
  | some (terminator, closed) =>
    (match (j.formatted? closed p).bind (dropTerminator? terminator) with
      | some head => reindent p.depth head
      | none => code,
      j.noteFormatted closed p)

def layCodeTag (j : Job) (written : Text) (newLine : Bool) (p : Page) : Except Stop Page :=
  match CodeTag.ofText? written with
  | none => .ok (p.emit written newLine)
  | some tag =>
    match Kind.of j.options.probe tag.code with
    | .comment => .ok (p.emit (tag.render tag.code) newLine)
    | .closer => do
      let p ← p.pop .code (j.table.restore written)
      .ok (p.emit (tag.render tag.code) newLine)
    | .reopener => do
      let p ← p.pop .code (j.table.restore written)
      .ok ((p.emit (tag.render tag.code) newLine).push (.code tag.code))
    | .opener =>
      let (code, p) := j.layOpener tag.code p
      .ok ((p.emit (tag.render code) newLine).push (.code tag.code))
    | .standalone | .expression =>
      let (code, p) := j.layCode tag.code p
      .ok (p.emit (tag.render code) newLine)

/-- The code tags of a text between tags, each with the running text before it, and the text after
the last. Markers that stand for no code belong to the running text. -/
def codePieces (table : MarkerTable) (before : Text) :
    List (Text × Text) → Text → List (Text × Text × Text) × Text
  | [], tail => ([], before ++ tail)
  | (b, digits) :: rest, tail =>
    match table.code? digits with
    | some code =>
      let (pieces, last) := codePieces table [] rest tail
      ((before ++ b, markers.written digits, code) :: pieces, last)
    | none => codePieces table (before ++ b ++ markers.written digits) rest tail

/-- Pieces of running text, each followed by a code tag, laid out from the byte offset `offset`
on. -/
def layPieces (j : Job) : Nat → List (Text × Text × Text) → Page → Except Stop Page
  | _, [], p => .ok p
  | offset, (before, written, code) :: rest, p => do
    let p := j.layText before 0 p
    let start := offset + byteSize before
    let p ← j.layCodeTag code (endsBlank before) { p with position := start }
    j.layPieces (start + byteSize written) rest p

def layTextToken (j : Job) (offset : Nat) (s : Text) (tail : Nat) (p : Page) : Except Stop Page :=
  if badAttributes.occursIn s then .error ⟨.badAttribute (j.table.restore (trim s)), p⟩
  else do
    let (found, rest) := markers.split s
    let (pieces, last) := codePieces j.table [] found rest
    let p ← j.layPieces offset pieces p
    .ok (j.layText last tail p)

def layOpening (j : Job) (name attributes : Text) (ending : Ending) (newLine : Bool) (p : Page) :
    Except Stop Page :=
  if !isTagName name then .error ⟨.unknownTag name, p⟩
  else
    let style : AttributeStyle :=
      ⟨j.options.lineWidth, j.options.singleClassPerLine, j.options.ranking⟩
    let laid := formatAttributes style j.width name (trim attributes) ending.written p.depth
    let tag := '<' :: (name ++ laid ++ ending.written)
    let p := p.emit tag newLine
    .ok (if ending = .slash || isVoidElement name then p else p.push (.element name tag))

def layClosing (name : Text) (newLine : Bool) (p : Page) : Except Stop Page := do
  let tag := '<' :: '/' :: (name ++ ['>'])
  let p ← p.pop (.tag name) tag
  .ok (p.emit tag newLine)

/-- The columns of the tags that follow a text without a blank between, up to the first with
attributes. -/
def gluedWidth : List Token → Nat
  | [] => 0
  | t :: rest =>
    if t.afterBlank then 0
    else
      match t.lexeme with
      | .tag (.closing _ name _) => byteSize name + 3 + gluedWidth rest
      | .tag (.opening name attributes _ ending) =>
        if allBlank attributes then 1 + byteSize name + byteSize ending.written + gluedWidth rest
        else 0
      | _ => 0

/-- A token laid out; `following` are the tokens after it. -/
def layToken (j : Job) (t : Token) (following : List Token) (p : Page) : Except Stop Page :=
  let p := { p with position := t.offset }
  match t.lexeme with
  | .text s => j.layTextToken t.offset s (gluedWidth following) p
  | .raw s => .ok (p.append (trimEnd s))
  | .tag (.opening name attributes _ ending) => j.layOpening name attributes ending t.afterBlank p
  | .tag (.closing _ name _) => layClosing name t.afterBlank p
  | .unrecognized s => .error ⟨.unrecognized (j.table.restore s), p⟩

def layTokens (j : Job) : List Token → Page → Except Stop Page
  | [], p => .ok p
  | t :: ts, p => do j.layTokens ts (← j.layToken t ts p)

/-- A body laid out; at its end no block may be open. -/
def layBody (j : Job) (body : Text) : Except Stop Page := do
  let p ← j.layTokens (tokens body) Page.blank
  let p := { p with position := byteSize body }
  match p.blocks.finish with
  | .ok () => .ok p
  | .error cause => .error ⟨cause, p⟩

/-- The failure of a layout that stopped, `above` lines below the start of the document. -/
def failureAt (j : Job) (above : Nat) (body : Text) (s : Stop) : Failure where
  cause := s.cause
  filename := j.options.filename
  line := above + (j.table.restore (takeBytes s.page.position body)).count '\n' + 1
  context := s.page.blocks.head?.map Block.label

end Job

/-- The finished body after the front matter, with one line feed at the end. -/
def attachFrontMatter (frontMatter : Option Text) (body : Text) : Text :=
  match frontMatter with
  | none => body ++ ['\n']
  | some matter =>
    let matter := if matter.getLast? == some '\n' then matter else matter ++ ['\n']
    if body.isEmpty then matter else matter ++ '\n' :: (body ++ ['\n'])

/-- The outcome of a run: the events, and the document or why there is none. -/
structure Run where
  events : List Event
  result : Except Failure Text

/-- A document laid out. -/
def runDocument (options : Options) (source : Text) : Run :=
  let (frontMatter, body) := splitFrontMatter source
  let (body, table) := extractCode body
  let job : Job := ⟨options, table⟩
  match job.layBody body with
  | .ok page =>
    ⟨page.events, .ok (attachFrontMatter frontMatter (trim (table.restore page.output)))⟩
  | .error stop =>
    ⟨stop.page.events, .error (job.failureAt ((frontMatter.getD []).count '\n') body stop)⟩

def formatDocument (options : Options) (source : Text) : Except Failure Text :=
  (runDocument options source).result

end ErbLayout
