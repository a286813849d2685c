import ErbLayout.Markup.Tag

/-!
The tokens of a body: tags, the text between them, and the raw content of script and style elements,
which is not looked into. The lexemes written one after the other are the body; a token adds the
byte offset at which its lexeme stands and whether a blank stands right before it.
-/

namespace ErbLayout.Markup

open Text

inductive Lexeme where
  | text (content : Text)
  | raw (content : Text)
  | tag (tag : Tag)
  | unrecognized (content : Text)
  deriving DecidableEq, Repr

def Lexeme.written : Lexeme → Text
  | .text content | .raw content | .unrecognized content => content
  | .tag t => t.written

structure Token where
  /-- The byte offset of the lexeme. -/
  offset : Nat
  /-- Whether the body before the lexeme ends with a blank. -/
  afterBlank : Bool
  lexeme : Lexeme
  deriving DecidableEq, Repr

/-- The text before a tag as a lexeme, if there is any: raw inside a raw container. -/
def leadingLexeme (container : Option Text) (content : Text) : List Lexeme :=
  if content.isEmpty then []
  else if container.isSome then [.raw content]
  else [.text content]

/-- The tags looked for: any tag, or inside a raw container only the one that closes it. -/
def tagsIn (container : Option Text) : Recogniser Tag :=
  match container with
  | none => tags
  | some name => closers name

/-- The lexemes of a text that stands inside `container`. -/
def lexemesIn (container : Option Text) (s : Text) : List Lexeme :=
  match _h : (tagsIn container).first? s with
  | none => leadingLexeme container s
  | some (before, t, rest) =>
    leadingLexeme container before ++ .tag t :: lexemesIn t.rawContainer? rest
termination_by s.length
decreasing_by exact Recogniser.length_after_first? (by assumption)

def lexemes (body : Text) : List Lexeme := lexemesIn none body

/-- Lexemes put at their places, the first at byte `offset`. -/
def place (offset : Nat) (afterBlank : Bool) : List Lexeme → List Token
  | [] => []
  | l :: ls =>
    ⟨offset, afterBlank, l⟩ :: place (offset + byteSize l.written) (endsBlank l.written) ls

def tokens (body : Text) : List Token := place 0 false (lexemes body)

@[simp] theorem flatMap_leadingLexeme (container : Option Text) (content : Text) :
    (leadingLexeme container content).flatMap Lexeme.written = content := by
  unfold leadingLexeme
  split
  next h =>
    have hnil : content = [] := by simpa using h
    simp [hnil]
  next => split <;> simp [Lexeme.written]

@[simp] theorem tagsIn_written (container : Option Text) (t : Tag) :
    (tagsIn container).written t = t.written := by
  cases container <;> rfl

/-- The lexemes written one after the other are the text. -/
theorem flatMap_lexemesIn (container : Option Text) (s : Text) :
    (lexemesIn container s).flatMap Lexeme.written = s := by
  fun_induction lexemesIn container s with
  | case1 => simp
  | case2 container s before t rest h ih =>
    have := (Recogniser.first?_eq_some h).1
    simp only [List.flatMap_append, flatMap_leadingLexeme, List.flatMap_cons, Lexeme.written, ih]
    simpa using this.symm

end ErbLayout.Markup
